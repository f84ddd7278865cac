import Mathlib
import Stopwatch.Proofs.RereadItems

/-!
# Tidy rows

The rows that are printed are `Row.Tidy`: no empty row stands behind another one, none is at the top or at
the end, and a row that ends outside every token does not end with white space. Rows stay tidy when they are
put one below the other, with an empty row between them or without, and when text is put behind the last one.

* `Row.Tidy.parted`, `Row.Tidy.extend`: rows put together.
* `Row.tidy_squeeze`: rows of which the repeated empty ones are left out.
* `Leaf.Laid.tidy_fragment`: the lines of a fragment, and `Row.Tidy.printed` those of a printed one.
-/

namespace Stopwatch

open Text

/-! ## White space at the end -/

namespace Text

/-- The text does not end with white space. -/
def Trimmed (t : Text) : Prop := ∀ b ∈ t.getLast?, isBlank b = false

instance (t : Text) : Decidable (Trimmed t) :=
  inferInstanceAs (Decidable (∀ b ∈ t.getLast?, isBlank b = false))

theorem trimmed_nil : Trimmed [] := by simp [Trimmed]

theorem Trimmed.append {u : Text} (h : Trimmed u) (hne : u ≠ []) (t : Text) : Trimmed (t ++ u) :=
  fun b hb => h b (by rwa [List.getLast?_append_of_ne_nil _ hne] at hb)

theorem trimmed_trimEnd (t : Text) : Trimmed t.trimEnd := by
  intro b hb
  have hhead := List.head?_dropWhile_not isBlank t.reverse
  rw [trimEnd, List.getLast?_reverse] at hb
  rw [hb] at hhead
  exact hhead

theorem trimmed_trimEndWide (t : Text) : Trimmed t.trimEndWide := by
  intro b hb
  by_contra hblank
  obtain ⟨u, hu⟩ := List.getLast?_eq_some_iff.mp hb
  -- Trimming again would cut the last byte off, but nothing is left to cut.
  have hagain := trimEndWide_append (w := [b]) (by simpa using hblank) u
  have hsame := trimEndWide_append_blank t (w := []) (by simp)
  rw [List.append_nil, hu, hagain] at hsame
  have hle := (trimEndWide_isPrefix u).length_le
  rw [hsame, List.length_append] at hle
  exact absurd hle (by simp)

/-- The text stands on one row and does not end with white space. -/
structure OneRow (t : Text) : Prop where
  trimmed : Trimmed t
  inline : newline ∉ t

instance (t : Text) : Decidable t.OneRow :=
  decidable_of_iff (Trimmed t ∧ newline ∉ t) ⟨fun h => ⟨h.1, h.2⟩, fun h => ⟨h.trimmed, h.inline⟩⟩

theorem oneRow_nil : OneRow [] := ⟨trimmed_nil, List.not_mem_nil⟩

theorem OneRow.append {t u : Text} (hu : OneRow u) (hne : u ≠ []) (ht : newline ∉ t) : OneRow (t ++ u) :=
  ⟨hu.trimmed.append hne t, fun h => (List.mem_append.mp h).elim ht hu.inline⟩

end Text

namespace Row

/-! ## Leaving out empty rows -/

theorem eq_of_not_apart {r s : Row} (h : ¬ Apart r s) : s = r := by
  obtain ⟨hr, hs⟩ := not_not.mp h
  obtain ⟨verbatim, text⟩ := r
  obtain ⟨verbatim', text'⟩ := s
  simp only [isGap, Bool.and_eq_true, Bool.not_eq_true', List.isEmpty_iff] at hr hs
  rw [hr.1, hr.2, hs.1, hs.2]

theorem head?_destutter' (r : Row) (rows : List Row) : (rows.destutter' Apart r).head? = some r := by
  induction rows generalizing r with
  | nil => rfl
  | cons s rows ih =>
    by_cases h : Apart r s
    · rw [List.destutter'_cons_pos _ h]
      rfl
    · rw [List.destutter'_cons_neg _ h, ih]

theorem getLast?_destutter' (r : Row) (rows : List Row) :
    (rows.destutter' Apart r).getLast? = (r :: rows).getLast? := by
  induction rows generalizing r with
  | nil => rfl
  | cons s rows ih =>
    by_cases h : Apart r s
    · obtain ⟨t, ht⟩ := List.head?_eq_some_iff.mp (head?_destutter' s rows)
      rw [List.destutter'_cons_pos _ h, List.getLast?_cons_cons, ← ih, ht, List.getLast?_cons_cons]
    · rw [List.destutter'_cons_neg _ h, ih, eq_of_not_apart h, List.getLast?_cons_cons]

/-- What holds of neighbours holds without the repeated rows, as these are equal. -/
theorem isChain_destutter'_of {S : Row → Row → Prop} {r : Row} {rows : List Row}
    (hS : (r :: rows).IsChain S) : (rows.destutter' Apart r).IsChain S := by
  induction rows generalizing r with
  | nil => exact hS
  | cons s rows ih =>
    obtain ⟨hrs, hrows⟩ := List.isChain_cons_cons.mp hS
    by_cases h : Apart r s
    · obtain ⟨t, ht⟩ := List.head?_eq_some_iff.mp (head?_destutter' s rows)
      have hrest := ih hrows
      rw [List.destutter'_cons_pos _ h]
      rw [ht] at hrest ⊢
      exact hrest.cons_cons hrs
    · rw [List.destutter'_cons_neg _ h]
      rw [eq_of_not_apart h] at hrows
      exact ih hrows

/-! ## Rows without white space to spare -/

/-- The row `s` may stand below the row `r`: they are not both empty, and unless `s` starts inside a token
`r` does not end with white space. -/
def Follows (r s : Row) : Prop := Apart r s ∧ (s.verbatim = false → Trimmed r.text)

/-- Rows without white space at their end and without empty rows at the top, at the end, or behind one
another, up to what stands inside a token. -/
structure Tidy (rows : List Row) : Prop where
  first : ∀ r, rows.head? = some r → r.verbatim = false ∧ r.text ≠ []
  last : ∀ r, rows.getLast? = some r → r.isGap = false ∧ Trimmed r.text
  chain : rows.IsChain Follows
  inline : ∀ r ∈ rows, newline ∉ r.text

/-- An empty row. -/
def gap (b : Bool) : List Row := if b then [⟨false, []⟩] else []

/-- Text behind the last row. -/
def extend (rows : List Row) (t : Text) : List Row :=
  rows.dropLast ++ (rows.getLast?.map fun r => ⟨r.verbatim, r.text ++ t⟩).toList

theorem extend_concat (init : List Row) (r : Row) (t : Text) :
    extend (init ++ [r]) t = init ++ [⟨r.verbatim, r.text ++ t⟩] := by
  simp [extend]

theorem extend_nil (rows : List Row) : extend rows [] = rows := by
  rcases List.eq_nil_or_concat rows with rfl | ⟨init, r, rfl⟩
  · rfl
  · rw [List.concat_eq_append, extend_concat, List.append_nil]

theorem extend_ne_nil {rows : List Row} (h : rows ≠ []) (t : Text) : extend rows t ≠ [] := by
  obtain ⟨init, r, rfl⟩ := (List.eq_nil_or_concat rows).resolve_left h
  simp [List.concat_eq_append, extend_concat]

theorem isGap_eq_false_of_ne_nil {r : Row} (h : r.text ≠ []) : r.isGap = false := by
  simp [isGap, h]

theorem tidy_nil : Tidy [] := ⟨by simp, by simp, List.isChain_nil, by simp⟩

theorem tidy_singleton {t : Text} (hne : t ≠ []) (ht : t.OneRow) : Tidy [⟨false, t⟩] where
  first r hr := by
    obtain rfl := Option.some.inj hr
    exact ⟨rfl, hne⟩
  last r hr := by
    obtain rfl := Option.some.inj hr
    exact ⟨isGap_eq_false_of_ne_nil hne, ht.trimmed⟩
  chain := List.isChain_singleton _
  inline := by simpa using ht.inline

namespace Tidy

variable {a b rows : List Row}

/-- A first row is not empty, so it may stand below any trimmed one. -/
theorem follows_first (hb : Tidy b) {r s : Row} (hs : b.head? = some s) (hr : Trimmed r.text) :
    Follows r s :=
  ⟨apart_of_not_isGap (isGap_eq_false_of_ne_nil (hb.first s hs).2) r, fun _ => hr⟩

/-- **Rows one below the other**, with an empty row between them or without. -/
theorem parted (ha : Tidy a) (hb : Tidy b) (hane : a ≠ []) (hbne : b ≠ []) (g : Bool) :
    Tidy (a ++ (gap g ++ b)) where
  first r hr := ha.first r (by rwa [List.head?_append_of_ne_nil _ hane] at hr)
  last r hr := by
    rw [← List.append_assoc, List.getLast?_append_of_ne_nil _ hbne] at hr
    exact hb.last r hr
  chain := by
    cases g with
    | false =>
      refine List.isChain_append.mpr ⟨ha.chain, hb.chain, fun r hr s hs => ?_⟩
      exact hb.follows_first hs (ha.last r hr).2
    | true =>
      have hgap : (⟨false, []⟩ :: b : List Row).IsChain Follows :=
        List.isChain_cons.mpr ⟨fun s hs => hb.follows_first hs trimmed_nil, hb.chain⟩
      refine List.isChain_append.mpr ⟨ha.chain, hgap, fun r hr s hs => ?_⟩
      obtain rfl := Option.some.inj hs
      have hlast := ha.last r hr
      exact ⟨by simp [Apart, hlast.1], fun _ => hlast.2⟩
  inline r hr := by
    rcases List.mem_append.mp hr with hr | hr
    · exact ha.inline r hr
    rcases List.mem_append.mp hr with hr | hr
    · cases g with
      | false => exact absurd hr List.not_mem_nil
      | true =>
        rw [List.mem_singleton.mp hr]
        exact List.not_mem_nil
    · exact hb.inline r hr

theorem append (ha : Tidy a) (hb : Tidy b) : Tidy (a ++ b) := by
  by_cases hane : a = []
  · rwa [hane]
  by_cases hbne : b = []
  · rwa [hbne, List.append_nil]
  exact ha.parted hb hane hbne false

/-- **Text behind the last row**, which does not end with white space. -/
theorem extend (h : Tidy rows) (hne : rows ≠ []) {t : Text} (ht : t.OneRow) : Tidy (extend rows t) := by
  by_cases hnil : t = []
  · rwa [hnil, extend_nil]
  obtain ⟨init, r, rfl⟩ := (List.eq_nil_or_concat rows).resolve_left hne
  rw [List.concat_eq_append] at h ⊢
  rw [extend_concat]
  have htext : r.text ++ t ≠ [] := by simp [hnil]
  have hchain := List.isChain_append.mp h.chain
  refine ⟨fun s hs => ?_, fun s hs => ?_, ?_, fun s hs => ?_⟩
  · cases init with
    | nil =>
      obtain rfl := Option.some.inj hs
      exact ⟨(h.first r rfl).1, htext⟩
    | cons k init => exact h.first s hs
  · obtain rfl := Option.some.inj ((List.getLast?_concat ..).symm.trans hs)
    exact ⟨isGap_eq_false_of_ne_nil htext, ht.trimmed.append hnil _⟩
  · refine List.isChain_append.mpr ⟨hchain.1, List.isChain_singleton _, fun k hk s hs => ?_⟩
    obtain rfl := Option.some.inj hs
    exact ⟨apart_of_not_isGap (isGap_eq_false_of_ne_nil htext) k, (hchain.2.2 k hk r rfl).2⟩
  · rcases List.mem_append.mp hs with hs | hs
    · exact h.inline s (List.mem_append_left _ hs)
    · rw [List.mem_singleton.mp hs]
      have hr := h.inline r (by simp)
      exact fun hmem => (List.mem_append.mp hmem).elim hr ht.inline

end Tidy

/-- Lines that are not empty and do not end with white space. -/
theorem tidy_lines {ls : List Text} (h : ∀ l ∈ ls, l ≠ [] ∧ l.OneRow) :
    Tidy (ls.map (⟨false, ·⟩)) := by
  induction ls with
  | nil => exact tidy_nil
  | cons l ls ih =>
    obtain ⟨⟨hne, ht⟩, hls⟩ := List.forall_mem_cons.mp h
    exact (tidy_singleton hne ht).append (ih hls)

/-- **Leaving out repeated empty rows makes rows tidy.** -/
theorem tidy_squeeze {rows : List Row}
    (hfirst : ∀ r, rows.head? = some r → r.verbatim = false ∧ r.text ≠ [])
    (hlast : ∀ r, rows.getLast? = some r → r.isGap = false ∧ Trimmed r.text)
    (hchain : rows.IsChain fun r s => s.verbatim = false → Trimmed r.text)
    (hclean : ∀ r ∈ rows, newline ∉ r.text) : Tidy (squeeze rows) := by
  cases rows with
  | nil => exact tidy_nil
  | cons r rows =>
    rw [squeeze, List.destutter_cons']
    refine ⟨fun s hs => ?_, fun s hs => ?_, ?_, fun s hs => ?_⟩
    · exact hfirst s (by rwa [head?_destutter'] at hs)
    · exact hlast s (by rwa [getLast?_destutter'] at hs)
    · exact Leaf.isChain_and (List.isChain_destutter' _ _ _) (isChain_destutter'_of hchain)
    · exact hclean s ((List.destutter'_sublist _ _ _).subset hs)

end Row

/-! ## The lines of a fragment -/

/-- A line of a fragment below `depth`, as a row. -/
def FragmentLine.printedRow (indent : Text) (depth : Int) (l : FragmentLine) : Row :=
  ⟨l.verbatim, l.printed indent depth⟩

/-- The rows a fragment is printed as. -/
def Fragment.rows (indent : Text) (depth : Int) (f : Fragment) : List Row :=
  f.map (FragmentLine.printedRow indent depth)

theorem Fragment.map_text_rows (indent : Text) (depth : Int) (f : Fragment) :
    (f.rows indent depth).map Row.text = f.printed indent depth := by
  rw [rows, List.map_map]
  rfl

namespace FragmentLine

variable (indent : Text) (depth : Int) (l : FragmentLine)

theorem printedRow_text_eq_nil_iff (h : l.verbatim = false) :
    (l.printedRow indent depth).text = [] ↔ l.text = [] := by
  simp only [printedRow, printed, h, Stroke.indented]
  by_cases hnil : l.text = [] <;> simp [hnil]

theorem isGap_printedRow : (l.printedRow indent depth).isGap = l.row.isGap := by
  cases hverbatim : l.verbatim with
  | true => simp [Row.isGap, printedRow, row, hverbatim]
  | false =>
    have hiff := printedRow_text_eq_nil_iff indent depth l hverbatim
    have hflag : (l.printedRow indent depth).verbatim = false := hverbatim
    have hflag' : l.row.verbatim = false := hverbatim
    rw [Bool.eq_iff_iff]
    simpa [Row.isGap, hflag, hflag', row, hverbatim] using hiff

/-- Indentation is put in front of text only. -/
theorem trimmed_printedRow (h : Trimmed l.text) : Trimmed (l.printedRow indent depth).text := by
  simp only [printedRow, printed, Stroke.indented]
  split
  · exact h
  split
  · exact trimmed_nil
  · next hne => exact h.append hne _

end FragmentLine

/-- **Indenting tidy lines leaves them tidy.** -/
theorem Row.Tidy.printed {f : Fragment} (h : Row.Tidy (f.map FragmentLine.row)) {indent : Text}
    (hclean : newline ∉ indent) (depth : Int) : Row.Tidy (f.rows indent depth) where
  first r hr := by
    rw [Fragment.rows, List.head?_map] at hr
    obtain ⟨l, hl, rfl⟩ := Option.map_eq_some_iff.mp hr
    obtain ⟨hverbatim, hne⟩ := h.first l.row (by rw [List.head?_map, hl]; rfl)
    exact ⟨hverbatim, mt (l.printedRow_text_eq_nil_iff indent depth hverbatim).mp hne⟩
  last r hr := by
    rw [Fragment.rows, List.getLast?_map] at hr
    obtain ⟨l, hl, rfl⟩ := Option.map_eq_some_iff.mp hr
    obtain ⟨hgap, ht⟩ := h.last l.row (by rw [List.getLast?_map, hl]; rfl)
    exact ⟨(l.isGap_printedRow indent depth).trans hgap, l.trimmed_printedRow indent depth ht⟩
  chain := by
    refine (List.isChain_map _).mpr (((List.isChain_map _).mp h.chain).imp fun k l hkl => ?_)
    refine ⟨?_, fun hverbatim => k.trimmed_printedRow indent depth (hkl.2 hverbatim)⟩
    rw [Apart, k.isGap_printedRow, l.isGap_printedRow]
    exact hkl.1
  inline r hr := by
    obtain ⟨l, hl, rfl⟩ := List.mem_map.mp hr
    have htext : newline ∉ l.text := h.inline l.row (List.mem_map_of_mem hl)
    simp only [FragmentLine.printedRow, FragmentLine.printed]
    split
    · exact htext
    · exact Print.newline_notMem_indented hclean htext _

namespace Leaf

variable {text : Text} {ls : List Leaf} {first last : Leaf}

theorem newline_notMem_relaidRow (i : Nat) : newline ∉ (relaidRow text ls first last i).text := by
  have hcut : newline ∉ rowCut text.splitLines (text.point first.start) (text.point last.stop) i := by
    intro hnewline
    have hmem := mem_of_mem_rowCut hnewline
    by_cases hi : i < text.splitLines.length
    · rw [List.getD_eq_getElem _ _ hi] at hmem
      exact (mem_of_mem_splitLines (List.getElem_mem hi) hmem).2 rfl
    · rw [List.getD_eq_default _ _ (not_lt.mp hi)] at hmem
      exact absurd hmem List.not_mem_nil
  intro hnewline
  refine hcut ?_
  have hdrop : ∀ (t : Text) {c : UInt8}, c ∈ t.trimEnd → c ∈ t := fun t c hc =>
    List.mem_reverse.mp ((List.dropWhile_sublist _).subset (List.mem_reverse.mp hc))
  simp only [relaidRow, Row.relaid] at hnewline
  split at hnewline <;> split at hnewline
  · exact hnewline
  · exact (List.dropWhile_sublist _).subset hnewline
  · exact hdrop _ hnewline
  · exact (List.dropWhile_sublist _).subset (hdrop _ hnewline)

/-- A row that is not followed by the inside of a token does not end inside one. -/
theorem trimmed_relaidRow {i : Nat} (h : anyOpen (Source.ofText text) ls i = false) :
    Trimmed (relaidRow text ls first last i).text := by
  simp only [relaidRow, Row.relaid, h, Bool.false_eq_true, if_false]
  exact trimmed_trimEnd _

theorem anyOpen_eq_anyInside (source : Source) (ls : List Leaf) (i : Nat) :
    anyOpen source ls i = anyInside source ls (i + 1) := by
  simp only [anyOpen, anyInside, Nat.lt_succ_iff, Nat.succ_le_iff]

/-- **The lines of a fragment are tidy.** -/
theorem Laid.tidy_fragment (h : Laid (Source.ofText text) ls) (hne : ls ≠ []) :
    Row.Tidy ((fragment text ls).map FragmentLine.row) := by
  have hfirst := List.head?_eq_some_head hne
  have hlast := List.getLast?_eq_some_getLast hne
  generalize ls.head hne = first at hfirst
  generalize ls.getLast hne = last at hlast
  have hle := h.first_row_le hfirst hlast
  have hmem := List.mem_of_getLast? hlast
  obtain ⟨n, hn⟩ := Nat.exists_eq_add_of_le hle
  have hcount : (text.point last.stop).row + 1 - (text.point first.start).row = n + 1 := by omega
  rw [fragment, Layout.rows_ofPlaced h, relaidRows_eq_map h hfirst hlast, hcount]
  refine Row.tidy_squeeze (fun r hr => ?_) (fun r hr => ?_) ?_ fun r hr => ?_
  · obtain rfl := Option.some.inj hr
    have hinside : anyInside (Source.ofText text) ls (text.point first.start).row = false := by
      by_contra hinside
      exact h.ne_first_of_inside hfirst (by simpa using hinside) rfl
    refine ⟨hinside, fun hnil => ?_⟩
    have hgap := h.isGap_first hfirst hlast
    simp only [bareRow, relaidRow, Row.isGap, hnil, List.isEmpty_nil, Bool.and_true] at hgap
    exact absurd hinside (by simpa [Row.relaid] using hgap)
  · rw [List.range'_1_concat, List.map_append, List.map_singleton, List.getLast?_concat, ← hn] at hr
    obtain rfl := Option.some.inj hr
    refine ⟨h.isGap_bareRow hfirst hlast hmem (row_mono (h.bounds last hmem).1.le text) le_rfl,
      trimmed_relaidRow (Bool.eq_false_iff.mpr fun hopen => ?_)⟩
    obtain ⟨l, hl, hrow⟩ := List.any_eq_true.mp hopen
    rw [lastRow_ofText] at hrow
    have hstop := row_mono (h.stop_le_last hl hlast) text
    simp only [Bool.and_eq_true, decide_eq_true_eq] at hrow
    omega
  · refine (List.isChain_map _).mpr ((List.isChain_range' _ _ 1).imp fun i j hij hverbatim => ?_)
    refine trimmed_relaidRow ?_
    rw [anyOpen_eq_anyInside, ← hij]
    exact hverbatim
  · obtain ⟨i, -, rfl⟩ := List.mem_map.mp hr
    exact newline_notMem_relaidRow i

end Leaf

end Stopwatch
