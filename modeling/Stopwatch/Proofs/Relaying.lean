import Mathlib
import Stopwatch.Proofs.Rows
import Stopwatch.Syntax.Layout

/-!
# Laying rows out again

What `Layout.ofPlaced` makes of the rows that some tokens stand on, apart from the depths. The source text
from the first token to the end of the last one is cut into rows. Of a row that starts outside every
token the leading white space goes; of a row that ends outside every token the trailing white space goes;
and of several empty rows in a row one is left.

* `Row.relaid`, `Row.squeeze`: these changes.
* `Leaf.Laid`: tokens in order with white space between them, which start their rows with something else.
* `Layout.rows_ofPlaced`: the lines of a fragment are the rows of its tokens with these changes.
-/

namespace Stopwatch

open Text

/-- A row as it is printed, up to its indentation. A verbatim row gets none. -/
structure Row where
  verbatim : Bool
  text : Text
  deriving DecidableEq, Repr

namespace Row

/-- Whether a row is an empty line. -/
def isGap (r : Row) : Bool := !r.verbatim && r.text.isEmpty

/-- A row of the source without the white space that is not kept. -/
def relaid (inside openEnd : Bool) (raw : Text) : Row :=
  let t := if inside then raw else raw.dropWhile isBlank
  ⟨inside, if openEnd then t else t.trimEnd⟩

/-- Whether both of two neighbouring rows are kept. -/
def Apart (a b : Row) : Prop := ¬ (a.isGap = true ∧ b.isGap = true)

instance : DecidableRel Apart := fun a b =>
  inferInstanceAs (Decidable (¬ (a.isGap = true ∧ b.isGap = true)))

theorem apart_of_not_isGap {b : Row} (h : b.isGap = false) (a : Row) : Apart a b := by
  simp [Apart, h]

/-- Rows with one empty line in place of several. -/
def squeeze (rows : List Row) : List Row := rows.destutter Apart

/-- One more row behind the rows `done`, last row first. -/
def push (done : List Row) (r : Row) : List Row :=
  match done with
  | [] => [r]
  | last :: rest => if Apart last r then r :: last :: rest else last :: rest

theorem foldl_push_cons (last : Row) (done rows : List Row) :
    rows.foldl push (last :: done) = (rows.destutter' Apart last).reverse ++ done := by
  induction rows generalizing last done with
  | nil => rfl
  | cons r rows ih =>
    rw [List.foldl_cons]
    by_cases h : Apart last r
    · rw [push, if_pos h, ih, List.destutter'_cons_pos _ h]
      simp
    · rw [push, if_neg h, ih, List.destutter'_cons_neg _ h]

/-- Adding rows one by one leaves one empty line in place of several. -/
theorem foldl_push (rows : List Row) : rows.foldl push [] = (squeeze rows).reverse := by
  cases rows with
  | nil => rfl
  | cons r rows =>
    rw [List.foldl_cons, squeeze, List.destutter_cons']
    exact (foldl_push_cons r [] rows).trans (List.append_nil _)

theorem push_of_not_isGap {r : Row} (h : r.isGap = false) (done : List Row) :
    push done r = r :: done := by
  cases done with
  | nil => rfl
  | cons last rest => rw [push, if_pos (apart_of_not_isGap h last)]

end Row

/-- A line of a fragment without its depth. -/
def FragmentLine.row (l : FragmentLine) : Row := ⟨l.verbatim, l.text⟩

/-! ## White space -/

theorem dropWhile_eq_drop {p : UInt8 → Bool} {t rest : Text} {n : Nat} {b : UInt8}
    (hblank : ∀ c ∈ t.take n, p c = true) (hdrop : t.drop n = b :: rest) (hb : p b = false) :
    t.dropWhile p = t.drop n := by
  have hsplit : (t.take n ++ t.drop n).dropWhile p = (t.drop n).dropWhile p :=
    List.dropWhile_append_of_pos hblank
  rw [List.take_append_drop, hdrop, List.dropWhile_cons_of_neg (by simp [hb])] at hsplit
  rw [hsplit, hdrop]

theorem trimEnd_cons_ne_nil {b : UInt8} (hb : isBlank b = false) (t : Text) :
    trimEnd (b :: t) ≠ [] := by
  intro h
  have hall := List.dropWhile_eq_nil_iff.mp (List.reverse_eq_nil_iff.mp h) b (by simp)
  exact absurd hall (by simp [hb])

/-- Where a text has something else than white space, it has no line feed. -/
theorem exists_of_any_solid {o : Option UInt8} (h : (o.any fun b => !isBlank b) = true) :
    ∃ b, o = some b ∧ isBlank b = false ∧ b ≠ newline := by
  obtain ⟨b, hb, hblank⟩ := (Option.any_eq_true _ _).mp h
  have hsolid : isBlank b = false := by simpa using hblank
  exact ⟨b, hb, hsolid, fun hnewline => absurd hsolid (by rw [hnewline]; decide)⟩

/-! ## One row -/

namespace Layout

/-- **One step adds one row.** The row is given twice: as the layout sees it, cut at the end of the last
token only (`raw`), and cut at both ends (`cut`). -/
theorem rows_step (isFirst inside openEnd : Bool) (raw cut : Text) (row : List PlacedLeaf) (s : State)
    (hinside : inside = true → raw = cut)
    (hempty : inside = false → row = [] → ∀ b ∈ cut, isBlank b = true)
    (htokens : inside = false → ∀ l ls, row = l :: ls → ∃ b rest, raw.drop l.first.col = b :: rest ∧
      isBlank b = false ∧ cut.dropWhile isBlank = b :: rest) :
    (step isFirst inside openEnd raw row s).lines.map FragmentLine.row =
      Row.push (s.lines.map FragmentLine.row) (Row.relaid inside openEnd cut) := by
  cases inside with
  | true =>
    obtain rfl := hinside rfl
    rw [Row.push_of_not_isGap rfl]
    rfl
  | false =>
    cases row with
    | nil =>
      have hcut : cut.dropWhile isBlank = [] := List.dropWhile_eq_nil_iff.mpr (hempty rfl rfl)
      have hrelaid : Row.relaid false openEnd cut = ⟨false, []⟩ := by
        simp [Row.relaid, hcut, trimEnd]
      rw [hrelaid]
      cases hlines : s.lines with
      | nil => simp [step, hlines, Row.push, FragmentLine.row]
      | cons l ls =>
        obtain ⟨depth, text, verbatim⟩ := l
        cases text <;> cases verbatim <;>
          simp [step, hlines, Row.push, FragmentLine.row, Row.Apart, Row.isGap]
    | cons l ls =>
      obtain ⟨b, rest, hraw, hb, hcut⟩ := htokens rfl l ls rfl
      have hrelaid : Row.relaid false openEnd cut =
          ⟨false, if openEnd then b :: rest else trimEnd (b :: rest)⟩ := by
        simp [Row.relaid, hcut]
      have hgap : (Row.relaid false openEnd cut).isGap = false := by
        rw [hrelaid]
        cases openEnd with
        | true => rfl
        | false => simpa [Row.isGap] using trimEnd_cons_ne_nil hb rest
      rw [Row.push_of_not_isGap hgap, hrelaid]
      simp [step, hraw, FragmentLine.row]

end Layout

/-! ## The rows of some tokens -/

namespace Leaf

variable (source : Source)

/-- The row a token starts on. -/
def firstRow (l : Leaf) : Nat := (source.point l.start).row

/-- The row a token ends on. -/
def lastRow (l : Leaf) : Nat := (source.point l.stop).row

/-- Whether a token starts with something else than white space. -/
def beginsSolid (l : Leaf) : Bool := (source.text[l.start]?).any fun b => !isBlank b

/-- Whether the row `i` starts inside one of the tokens. -/
def anyInside (ls : List Leaf) (i : Nat) : Bool :=
  ls.any fun l => l.firstRow source < i && i ≤ l.lastRow source

/-- Whether the row `i` ends inside one of the tokens. -/
def anyOpen (ls : List Leaf) (i : Nat) : Bool :=
  ls.any fun l => l.firstRow source ≤ i && i < l.lastRow source

/-- The source rows of some tokens, from the start of the first one to the end of the last one. -/
def sourceRows (ls : List Leaf) : List Text :=
  match ls.head?, ls.getLast? with
  | some a, some b => (source.slice a.start b.stop).splitLines
  | _, _ => []

/-- These rows without the white space that is not kept. -/
def relaidRows (ls : List Leaf) : List Row :=
  (sourceRows source ls).mapIdx fun k raw =>
    let i := ((ls.head?).map (firstRow source)).getD 0 + k
    .relaid (anyInside source ls i) (anyOpen source ls i) raw

/-- The tokens `ls` stand in order in the source, with white space between neighbours. The first one, and
each one that has its row for itself up to there, starts with something else. -/
structure Laid (ls : List Leaf) : Prop where
  bounds : ∀ l ∈ ls, l.start < l.stop ∧ l.stop ≤ source.text.length
  gaps : ls.IsChain fun a b =>
    a.stop ≤ b.start ∧ ∀ c ∈ source.slice a.stop b.start, isBlank c = true
  rows : ls.IsChain fun a b => a.lastRow source < b.firstRow source → b.beginsSolid source = true
  head : ∀ l, ls.head? = some l → l.beginsSolid source = true

/-! ## Where the tokens stand -/

variable {source} {text : Text} {ls : List Leaf}

theorem point_place (l : Leaf) :
    l.place (Source.ofText text) = ⟨l.kind, l.parent, text.point l.start, text.point l.stop⟩ := by
  rw [place, Source.point_ofText, Source.point_ofText]

theorem firstRow_ofText (l : Leaf) :
    l.firstRow (Source.ofText text) = (text.point l.start).row := by
  rw [firstRow, Source.point_ofText]

theorem lastRow_ofText (l : Leaf) : l.lastRow (Source.ofText text) = (text.point l.stop).row := by
  rw [lastRow, Source.point_ofText]

theorem slice_ofText (a b : Nat) : (Source.ofText text).slice a b = (text.take b).drop a :=
  List.drop_take.symm

theorem Laid.pairwise_of (h : Laid source ls) (f : Leaf → Nat)
    (hf : ∀ a ∈ ls, ∀ b ∈ ls, a.stop ≤ b.start → f a ≤ f b) :
    ls.Pairwise fun a b => f a ≤ f b := by
  have hchain : (ls.map f).IsChain (· ≤ ·) :=
    (List.isChain_map _).mpr (h.gaps.imp_of_mem_imp fun a b ha hb hab => hf a ha b hb hab.1)
  exact List.pairwise_map.mp (List.isChain_iff_pairwise.mp hchain)

/-- Tokens start in order. -/
theorem Laid.pairwise (h : Laid source ls) : ls.Pairwise fun a b => a.start ≤ b.start :=
  h.pairwise_of _ fun a ha _ _ hab => (h.bounds a ha).1.le.trans hab

theorem Laid.first_start_le (h : Laid source ls) {first l : Leaf} (hfirst : ls.head? = some first)
    (hl : l ∈ ls) : first.start ≤ l.start := by
  obtain ⟨rest, rfl⟩ := List.head?_eq_some_iff.mp hfirst
  rcases List.mem_cons.mp hl with rfl | hl
  · exact le_rfl
  · exact (List.pairwise_cons.mp h.pairwise).1 l hl

/-- The first row does not start inside a token. -/
theorem Laid.ne_first_of_inside (h : Laid (Source.ofText text) ls) {first : Leaf} {i : Nat}
    (hfirst : ls.head? = some first) (hinside : anyInside (Source.ofText text) ls i = true) :
    i ≠ (text.point first.start).row := by
  obtain ⟨x, hx, hrow⟩ := List.any_eq_true.mp hinside
  have hlt : (text.point x.start).row < i := by
    rw [firstRow_ofText] at hrow
    simp only [Bool.and_eq_true, decide_eq_true_eq] at hrow
    exact hrow.1
  exact ((row_mono (h.first_start_le hfirst hx) text).trans_lt hlt).ne'

theorem Laid.start_lt_stop (h : Laid source ls) {l last : Leaf} (hl : l ∈ ls)
    (hlast : ls.getLast? = some last) : l.start < last.stop := by
  obtain ⟨init, rfl⟩ := List.getLast?_eq_some_iff.mp hlast
  have hbound := (h.bounds last (by simp)).1
  rcases List.mem_append.mp hl with hl | hl
  · have hle := (List.pairwise_append.mp h.pairwise).2.2 l hl last (by simp)
    exact hle.trans_lt hbound
  · rwa [List.mem_singleton.mp hl]

theorem Laid.stop_le_last (h : Laid source ls) {l last : Leaf} (hl : l ∈ ls)
    (hlast : ls.getLast? = some last) : l.stop ≤ last.stop := by
  obtain ⟨init, rfl⟩ := List.getLast?_eq_some_iff.mp hlast
  have hpairwise := h.pairwise_of Leaf.stop fun _ _ b hb hab => hab.trans (h.bounds b hb).1.le
  rcases List.mem_append.mp hl with hl | hl
  · exact (List.pairwise_append.mp hpairwise).2.2 l hl last (by simp)
  · rw [List.mem_singleton.mp hl]

/-- Above a row that none of the tokens covers, and from it on, there are tokens next to each other. -/
theorem exists_neighbours {first : Leaf} {rest : List Leaf} {i : Nat}
    (hfirst : first.firstRow source < i)
    (hlast : ∀ l, (first :: rest).getLast? = some l → i ≤ l.lastRow source)
    (hinside : anyInside source (first :: rest) i = false) :
    ∃ pre a b post, first :: rest = pre ++ a :: b :: post ∧
      (∀ x ∈ pre ++ [a], x.firstRow source < i) ∧ a.lastRow source < i ∧ i ≤ b.firstRow source := by
  induction rest generalizing first with
  | nil =>
    have hle := hlast first rfl
    simp [anyInside, hfirst, hle] at hinside
  | cons second rest ih =>
    have hfree : first.lastRow source < i ∧ anyInside source (second :: rest) i = false := by
      simpa [anyInside, hfirst] using hinside
    by_cases hsecond : i ≤ second.firstRow source
    · exact ⟨[], first, second, rest, rfl, by simpa using hfirst, hfree.1, hsecond⟩
    · obtain ⟨pre, a, b, post, hsplit, hbefore, ha, hb⟩ :=
        ih (not_le.mp hsecond) (fun l hl => hlast l (by simpa using hl)) hfree.2
      refine ⟨first :: pre, a, b, post, by rw [hsplit]; rfl, ?_, ha, hb⟩
      intro x hx
      rcases List.mem_cons.mp hx with rfl | hx
      · exact hfirst
      · exact hbefore x hx

theorem mem_of_mem_rowCut {rows : List Text} {first last : Point} {i : Nat} {c : UInt8}
    (h : c ∈ rowCut rows first last i) : c ∈ rows.getD i [] := by
  simp only [rowCut] at h
  split at h <;> split at h
  · exact List.mem_of_mem_take (List.mem_of_mem_drop h)
  · exact List.mem_of_mem_drop h
  · exact List.mem_of_mem_take h
  · exact h

/-- A row between two places holds only bytes from between them. -/
theorem mem_of_mem_rowCut_between {m n i : Nat} (hmn : m ≤ n) (hm : (text.point m).row ≤ i)
    (hn : i ≤ (text.point n).row) {c : UInt8}
    (h : c ∈ rowCut text.splitLines (text.point m) (text.point n) i) :
    c ∈ (Source.ofText text).slice m n := by
  refine (mem_of_mem_splitLines ?_ h).1
  rw [slice_ofText, splitLines_slice hmn]
  exact List.mem_map.mpr ⟨i, List.mem_range'_1.mpr ⟨hm, by omega⟩, rfl⟩

/-- The row of a token that starts with something else than white space, from there on. -/
theorem exists_rowCut_eq_cons {l : Leaf} (hsolid : l.beginsSolid (Source.ofText text) = true) {n : Nat}
    (hn : l.start < n) : ∃ b rest, isBlank b = false ∧
      rowCut text.splitLines (text.point l.start) (text.point n) (text.point l.start).row =
        b :: rest := by
  obtain ⟨b, hb, hblank, hne⟩ := exists_of_any_solid hsolid
  obtain ⟨hlt, hget⟩ := List.getElem?_eq_some_iff.mp hb
  change l.start < text.length at hlt
  change text[l.start] = b at hget
  have hdrop : (text.take n).drop l.start = b :: ((text.drop (l.start + 1)).take (n - l.start - 1)) := by
    rw [List.drop_take, List.drop_eq_getElem_cons hlt, hget]
    obtain ⟨k, hk⟩ := Nat.exists_eq_add_of_lt hn
    have hcount : n - l.start = k + 1 := by omega
    rw [hcount, List.take_succ_cons]
    simp
  have hrows := splitLines_slice hn.le text
  obtain ⟨row, rows, hrow⟩ := List.exists_cons_of_ne_nil
    (splitLines_ne_nil ((text.drop (l.start + 1)).take (n - l.start - 1)))
  have hmono := row_mono hn.le text
  obtain ⟨k, hk⟩ : ∃ k, (text.point n).row + 1 - (text.point l.start).row = k + 1 :=
    ⟨(text.point n).row - (text.point l.start).row, by omega⟩
  rw [hdrop, splitLines_cons hne hrow, hk, List.range'_succ, List.map_cons] at hrows
  exact ⟨b, row, hblank, (List.cons.inj hrows).1.symm⟩

theorem mem_of_filter_eq_cons {i : Nat} {l : Leaf} {more : List Leaf}
    (hrow : ls.filter (fun l => (text.point l.start).row == i) = l :: more) :
    l ∈ ls ∧ (text.point l.start).row = i := by
  have hmem : l ∈ ls.filter (fun l => (text.point l.start).row == i) := by
    rw [hrow]
    exact List.mem_cons_self
  exact ⟨(List.mem_filter.mp hmem).1, by simpa using (List.mem_filter.mp hmem).2⟩

/-- The first token of a row is the first one that does not start above it. -/
theorem Laid.first_on_row (h : Laid source ls) {i : Nat} {pre post : List Leaf} {b l : Leaf}
    {more : List Leaf} (hsplit : ls = pre ++ b :: post)
    (hbefore : ∀ x ∈ pre, (text.point x.start).row < i) (hb : i ≤ (text.point b.start).row)
    (hrow : ls.filter (fun l => (text.point l.start).row == i) = l :: more) : b = l := by
  have hpairwise := h.pairwise
  obtain ⟨hl, hi⟩ := mem_of_filter_eq_cons hrow
  rw [hsplit] at hl hrow hpairwise
  have hle : b.start ≤ l.start := by
    rcases List.mem_append.mp hl with hl | hl
    · exact absurd hi (hbefore l hl).ne
    · rcases List.mem_cons.mp hl with rfl | hl
      · exact le_rfl
      · exact (List.pairwise_cons.mp (List.pairwise_append.mp hpairwise).2.1).1 l hl
  have hbi : (text.point b.start).row = i := by
    have := row_mono hle text
    omega
  have hpre : pre.filter (fun l => (text.point l.start).row == i) = [] :=
    List.filter_eq_nil_iff.mpr fun x hx => by simpa using (hbefore x hx).ne
  rw [List.filter_append, hpre, List.nil_append, List.filter_cons, hbi,
    if_pos (beq_self_eq_true i)] at hrow
  exact (List.cons.inj hrow).1

section Covered

variable {first last : Leaf} {i : Nat} (h : Laid (Source.ofText text) ls)
  (hfirst : ls.head? = some first) (hlast : ls.getLast? = some last)
  (hhigh : i ≤ (text.point last.stop).row) (hinside : anyInside (Source.ofText text) ls i = false)

include h hfirst hlast hhigh hinside

/-- Above a row that is not the first one and starts outside every token, and from it on, there are
neighbours with nothing but white space between them. -/
theorem Laid.exists_gap (hlow : (text.point first.start).row < i) :
    ∃ pre a b post, ls = pre ++ a :: b :: post ∧
      (∀ x ∈ pre ++ [a], (text.point x.start).row < i) ∧
      (text.point a.stop).row < i ∧ i ≤ (text.point b.start).row ∧
      b.beginsSolid (Source.ofText text) = true ∧
      ∀ c ∈ rowCut text.splitLines (text.point a.stop) (text.point b.start) i, isBlank c = true := by
  obtain ⟨rest, rfl⟩ := List.head?_eq_some_iff.mp hfirst
  have hrows := @exists_neighbours (Source.ofText text) first rest i
  simp only [firstRow_ofText, lastRow_ofText] at hrows
  obtain ⟨pre, a, b, post, hsplit, hbefore, ha, hb⟩ := hrows hlow
    (fun l hl => by rw [hlast] at hl; rwa [← Option.some.inj hl]) hinside
  have hpair : [a, b] <:+: first :: rest := ⟨pre, post, by rw [hsplit]; simp⟩
  have hgaps := List.IsChain.infix h.gaps hpair
  have hrowsPair := List.IsChain.infix h.rows hpair
  obtain ⟨hle, hblank⟩ := List.isChain_pair.mp hgaps
  have hsolid := List.isChain_pair.mp hrowsPair
  rw [lastRow_ofText, firstRow_ofText] at hsolid
  refine ⟨pre, a, b, post, hsplit, hbefore, ha, hb, hsolid (ha.trans_le hb), fun c hc => ?_⟩
  exact hblank c (mem_of_mem_rowCut_between hle ha.le hb hc)

/-- A row without tokens is blank. -/
theorem Laid.blank_row (hlow : (text.point first.start).row ≤ i)
    (hnone : ∀ l ∈ ls, (text.point l.start).row ≠ i) :
    ∀ c ∈ text.splitLines.getD i [], isBlank c = true := by
  have hlt : (text.point first.start).row < i :=
    lt_of_le_of_ne hlow (hnone first (List.mem_of_mem_head? hfirst))
  obtain ⟨pre, a, b, post, hsplit, -, ha, hb, -, hblank⟩ :=
    h.exists_gap hfirst hlast hhigh hinside hlt
  have hne : i ≠ (text.point b.start).row := (hnone b (by rw [hsplit]; simp)).symm
  simpa [rowCut, hne, ha.ne'] using hblank

/-- A row that starts outside every token and has tokens starts with the first of them, up to white
space. -/
theorem Laid.token_row {l : Leaf} {more : List Leaf}
    (hrow : ls.filter (fun l => (text.point l.start).row == i) = l :: more) :
    ∃ b rest, isBlank b = false ∧
      rowCut text.splitLines (text.point l.start) (text.point last.stop) i = b :: rest ∧
      (rowCut text.splitLines (text.point first.start) (text.point last.stop) i).dropWhile isBlank =
        b :: rest := by
  obtain ⟨hl, rfl⟩ := mem_of_filter_eq_cons hrow
  have hstop : l.start < last.stop := h.start_lt_stop hl hlast
  obtain ⟨rest, hls⟩ := List.head?_eq_some_iff.mp hfirst
  by_cases hstart : (text.point l.start).row ≤ (text.point first.start).row
  · -- The first row: the first token stands there, and the row is cut in front of it.
    have hsplit : ls = [] ++ first :: rest := hls
    obtain rfl := h.first_on_row hsplit (by simp) hstart hrow
    obtain ⟨b, rest, hb, hcut⟩ := exists_rowCut_eq_cons (h.head first hfirst) hstop
    refine ⟨b, rest, hb, hcut, ?_⟩
    rw [hcut, List.dropWhile_cons_of_neg (by simp [hb])]
  · obtain ⟨pre, a, b, post, hsplit, hbefore, ha, hb, hsolid, hblank⟩ :=
      h.exists_gap hfirst hlast hhigh hinside (not_le.mp hstart)
    have hsplit' : ls = (pre ++ [a]) ++ b :: post := by rw [hsplit]; simp
    obtain rfl := h.first_on_row hsplit' hbefore hb hrow
    obtain ⟨c, rest, hc, hcut⟩ := exists_rowCut_eq_cons hsolid hstop
    refine ⟨c, rest, hc, hcut, ?_⟩
    have hne : (text.point b.start).row ≠ (text.point first.start).row := by omega
    simp only [rowCut, ha.ne', if_true, if_false] at hblank
    simp only [rowCut, if_true] at hcut
    simp only [rowCut, hne, if_false]
    rw [← hcut]
    refine dropWhile_eq_drop (fun x hx => hblank x ?_) hcut hc
    split at hx
    · rw [List.take_take] at hx
      exact List.take_subset_take_left _ (Nat.min_le_left _ _) hx
    · exact hx

end Covered

/-! ## All rows -/

theorem mapIdx_map_range' {α : Type} (f : Nat → Text) (g : Nat → Text → α) (start n : Nat) :
    ((List.range' start n).map f).mapIdx (fun k t => g (start + k) t) =
      (List.range' start n).map fun i => g i (f i) := by
  refine List.ext_getElem (by simp) fun k hk _ => ?_
  simp

/-- The rows of tokens, as rows of the whole source. -/
theorem relaidRows_eq_map {first last : Leaf} (h : Laid (Source.ofText text) ls)
    (hfirst : ls.head? = some first) (hlast : ls.getLast? = some last) :
    relaidRows (Source.ofText text) ls =
      (List.range' (text.point first.start).row
        ((text.point last.stop).row + 1 - (text.point first.start).row)).map fun i =>
          .relaid (anyInside (Source.ofText text) ls i) (anyOpen (Source.ofText text) ls i)
            (rowCut text.splitLines (text.point first.start) (text.point last.stop) i) := by
  have hle : first.start ≤ last.stop :=
    (h.start_lt_stop (List.mem_of_mem_head? hfirst) hlast).le
  simp only [relaidRows, sourceRows, hfirst, hlast, slice_ofText, splitLines_slice hle,
    Option.map_some, Option.getD_some, firstRow_ofText]
  exact mapIdx_map_range' _ (fun i raw => Row.relaid (anyInside (Source.ofText text) ls i)
    (anyOpen (Source.ofText text) ls i) raw) _ _

end Leaf

namespace Layout

open Leaf

theorem rows_foldl {visit : State → Nat → State} {row : Nat → Row} (is : List Nat) (s : State)
    (h : ∀ i ∈ is, ∀ s, (visit s i).lines.map FragmentLine.row =
      Row.push (s.lines.map FragmentLine.row) (row i)) :
    (is.foldl visit s).lines.map FragmentLine.row =
      (is.map row).foldl Row.push (s.lines.map FragmentLine.row) := by
  induction is generalizing s with
  | nil => rfl
  | cons i is ih =>
    rw [List.foldl_cons, List.map_cons, List.foldl_cons, ← h i List.mem_cons_self s]
    exact ih _ fun j hj => h j (List.mem_cons_of_mem i hj)

/-- The row `i` of a source, cut at the end of the last token. -/
def rawRow (text : Text) (last : Leaf) (i : Nat) : Text :=
  if i == (text.point last.stop).row then (text.splitLines.getD i []).take (text.point last.stop).col
  else text.splitLines.getD i []

/-- The tokens that start on the row `i`. -/
def tokensOn (text : Text) (ls : List Leaf) (i : Nat) : List PlacedLeaf :=
  (ls.filter fun l => (text.point l.start).row == i).map (Leaf.place (Source.ofText text))

/-- The layout of some tokens, row by row. -/
theorem ofPlaced_eq {text : Text} {ls : List Leaf} {first last : Leaf} (hfirst : ls.head? = some first)
    (hlast : ls.getLast? = some last) :
    ofPlaced (Source.ofText text).rows (ls.map (Leaf.place (Source.ofText text))) =
      ((List.range' (text.point first.start).row
        ((text.point last.stop).row + 1 - (text.point first.start).row)).foldl (fun s i =>
          step (i == (text.point first.start).row) (anyInside (Source.ofText text) ls i)
            (anyOpen (Source.ofText text) ls i) (rawRow text last i) (tokensOn text ls i) s)
          {}).lines.reverse := by
  simp only [ofPlaced, List.head?_map, hfirst, List.getLast?_map, hlast, Option.map_some, List.any_map,
    List.filter_map, Function.comp_def, point_place, anyInside, anyOpen, firstRow_ofText,
    lastRow_ofText]
  rfl

/-- What a step sees of the row `i` of some tokens, and what it makes of it: a row inside a token is cut at
the end of the last token only, a row without tokens is blank, and any other one starts with its first
token, up to white space. -/
theorem fits {text : Text} {ls : List Leaf} (h : Laid (Source.ofText text) ls) {first last : Leaf}
    (hfirst : ls.head? = some first) (hlast : ls.getLast? = some last) {i : Nat}
    (hlow : (text.point first.start).row ≤ i) (hhigh : i ≤ (text.point last.stop).row) :
    let cut := rowCut text.splitLines (text.point first.start) (text.point last.stop) i
    (anyInside (Source.ofText text) ls i = true → rawRow text last i = cut) ∧
    (anyInside (Source.ofText text) ls i = false → tokensOn text ls i = [] →
      ∀ b ∈ cut, isBlank b = true) ∧
    (anyInside (Source.ofText text) ls i = false → ∀ l more, tokensOn text ls i = l :: more →
      ∃ b rest, (rawRow text last i).drop l.first.col = b :: rest ∧ isBlank b = false ∧
        cut.dropWhile isBlank = b :: rest) := by
  refine ⟨fun hinside => ?_, fun hinside hrow => ?_, fun hinside l more hrow => ?_⟩
  · have hne := h.ne_first_of_inside hfirst hinside
    simp only [rawRow, rowCut, hne, if_false, beq_iff_eq]
  · rw [tokensOn, List.map_eq_nil_iff, List.filter_eq_nil_iff] at hrow
    have hnone : ∀ l ∈ ls, (text.point l.start).row ≠ i := fun l hl => by simpa using hrow l hl
    have hblank := h.blank_row hfirst hlast hhigh hinside hlow hnone
    exact fun c hc => hblank c (mem_of_mem_rowCut hc)
  · obtain ⟨leaf, rest, hfilter, rfl, -⟩ := List.map_eq_cons_iff.mp hrow
    obtain ⟨b, t, hb, hcut, hdrop⟩ := h.token_row hfirst hlast hhigh hinside hfilter
    refine ⟨b, t, ?_, hb, hdrop⟩
    obtain ⟨-, rfl⟩ := mem_of_filter_eq_cons hfilter
    rw [← hcut, point_place]
    simp only [rawRow, rowCut, if_true, beq_iff_eq]

/-- **The lines of a fragment are the rows of its tokens**, without the white space that is not kept and
with one empty line in place of several. -/
theorem rows_ofPlaced {text : Text} {ls : List Leaf} (h : Laid (Source.ofText text) ls) :
    (ofPlaced (Source.ofText text).rows (ls.map (Leaf.place (Source.ofText text)))).map
      FragmentLine.row = Row.squeeze (relaidRows (Source.ofText text) ls) := by
  cases hfirst : ls.head? with
  | none =>
    obtain rfl := List.head?_eq_none_iff.mp hfirst
    rfl
  | some first =>
    cases hlast : ls.getLast? with
    | none =>
      obtain rfl := List.getLast?_eq_none_iff.mp hlast
      exact absurd hfirst (by simp)
    | some last =>
      rw [relaidRows_eq_map h hfirst hlast, ofPlaced_eq hfirst hlast, List.map_reverse, rows_foldl,
        List.map_nil, Row.foldl_push, List.reverse_reverse]
      intro i hi s
      obtain ⟨hlow, hhigh⟩ := List.mem_range'_1.mp hi
      obtain ⟨hinside, hempty, htokens⟩ := fits h hfirst hlast hlow (by omega)
      exact rows_step _ _ _ _ _ _ s hinside hempty htokens

end Layout

end Stopwatch
