import Mathlib
import Stopwatch.Proofs.InsertedLines
import Stopwatch.Proofs.KeptRows
import Stopwatch.Proofs.ProgramText
import Stopwatch.Proofs.SolidRows

/-!
# Reading a printed fragment again

A fragment is printed as lines. Where a text holds these lines, and the same tokens stand there, the tokens
give the same fragment again: the row that a token starts on in the text is told by the bytes other than
white space in front of it, and these are the same in both.

* `Leaf.Same`: the same token in two texts.
* `Leaf.Laid.solidRows_printed`: the lines that the tokens of a fragment are printed on.
* `Leaf.Laid.fragment_reread`: the fragment read from a text that holds the printed one.
-/

namespace Stopwatch

open Text Layout

/-! ## White space that makes no difference -/

theorem trimEnd_append_blank {w : Text} (hw : ∀ b ∈ w, isBlank b = true) (t : Text) :
    trimEnd (t ++ w) = trimEnd t := by
  rw [trimEnd, List.reverse_append,
    List.dropWhile_append_of_pos fun b hb => hw b (List.mem_reverse.mp hb)]
  rfl

theorem trimEnd_trimEnd (t : Text) : trimEnd (trimEnd t) = trimEnd t := by
  obtain ⟨w, hw, ht⟩ := exists_eq_trimEnd_append t
  conv_rhs => rw [ht, trimEnd_append_blank hw]

/-- White space in front of a row that starts outside every token, and behind one that ends so. -/
theorem Row.relaid_pad {inside openEnd : Bool} {g w : Text} (hg : ∀ b ∈ g, isBlank b = true)
    (hw : ∀ b ∈ w, isBlank b = true) (hinside : inside = true → g = []) (hopen : openEnd = true → w = [])
    (t : Text) : Row.relaid inside openEnd (g ++ t ++ w) = Row.relaid inside openEnd t := by
  have hfront : ∀ u : Text, (g ++ u).dropWhile isBlank = u.dropWhile isBlank := fun u =>
    List.dropWhile_append_of_pos hg
  have hback : trimEnd ((t ++ w).dropWhile isBlank) = trimEnd (t.dropWhile isBlank) := by
    rw [List.dropWhile_append]
    split
    · next hempty =>
      rw [List.isEmpty_iff.mp hempty, List.dropWhile_eq_nil_iff.mpr hw]
    · exact trimEnd_append_blank hw _
  cases inside with
  | true =>
    rw [hinside rfl, List.nil_append]
    cases openEnd with
    | true => rw [hopen rfl, List.append_nil]
    | false => simp only [Row.relaid, if_true, Bool.false_eq_true, if_false, trimEnd_append_blank hw]
  | false =>
    cases openEnd with
    | true => simp only [Row.relaid, hopen rfl, List.append_nil, Bool.false_eq_true, if_false, hfront]
    | false =>
      simp only [Row.relaid, Bool.false_eq_true, if_false, List.append_assoc, hfront, hback]

theorem dropWhile_trimEnd_dropWhile (t : Text) :
    (trimEnd (t.dropWhile isBlank)).dropWhile isBlank = trimEnd (t.dropWhile isBlank) := by
  cases h : t.dropWhile isBlank with
  | nil => rfl
  | cons b rest =>
    have hb : isBlank b = false := by
      have := List.head_dropWhile_not isBlank (l := t) (by rw [h]; simp)
      simpa [h] using this
    have htrim := trimEnd_append_cons hb [] rest
    rw [List.nil_append] at htrim
    rw [htrim, List.nil_append, List.dropWhile_cons_of_neg (by simp [hb])]

/-- **A printed row is laid out as the row it was printed from.** -/
theorem Row.PrintedAs.relaid_eq {indent : Text} (hindent : ∀ b ∈ indent, isBlank b = true)
    {inside openEnd : Bool} {raw line : Text}
    (h : (Row.relaid inside openEnd raw).PrintedAs indent line) :
    Row.relaid inside openEnd line = Row.relaid inside openEnd raw := by
  cases inside with
  | true =>
    rw [h.eq_text rfl]
    cases openEnd with
    | true => rfl
    | false => simp only [Row.relaid, if_true, Bool.false_eq_true, if_false, trimEnd_trimEnd]
  | false =>
    have hidem : ∀ text, text = (Row.relaid false openEnd raw).text →
        Row.relaid false openEnd text = Row.relaid false openEnd raw := by
      rintro text rfl
      cases openEnd with
      | true => simp only [Row.relaid, Bool.false_eq_true, if_false, if_true, List.dropWhile_idempotent]
      | false =>
        simp only [Row.relaid, Bool.false_eq_true, if_false, dropWhile_trimEnd_dropWhile, trimEnd_trimEnd]
    obtain ⟨levels, hline⟩ := h
    split at hline
    · next hnil =>
      rw [hline]
      exact hidem [] hnil.symm
    · have hblank : ∀ b ∈ (List.replicate levels indent).flatten, isBlank b = true := by
        intro b hb
        obtain ⟨t, ht, hb⟩ := List.mem_flatten.mp hb
        rw [List.eq_of_mem_replicate ht] at hb
        exact hindent b hb
      have hpad := @Row.relaid_pad false openEnd _ [] hblank (by simp) (by simp) (by simp)
        (Row.relaid false openEnd raw).text
      rw [List.append_nil] at hpad
      rw [hline, hpad]
      exact hidem _ rfl

/-! ## The same bytes with other white space at the ends -/

theorem isBlank_of_solid_nil {t : Text} (h : solid t = []) : ∀ b ∈ t, isBlank b = true := fun b hb => by
  simpa using List.filter_eq_nil_iff.mp h b hb

/-- White space on one row. -/
def Padding (w : Text) : Prop := (∀ b ∈ w, isBlank b = true) ∧ newline ∉ w

theorem padding_nil : Padding [] := ⟨fun _ hb => absurd hb List.not_mem_nil, List.not_mem_nil⟩

theorem padding_space : Padding [32] :=
  ⟨fun b hb => by rw [List.mem_singleton.mp hb]; decide, by decide⟩

theorem padding_of_append {t w : Text} (hsolid : (solid (t ++ w)).length = (solid t).length)
    (hcount : (t ++ w).count newline = t.count newline) : Padding w := by
  rw [solid_append, List.length_append] at hsolid
  rw [List.count_append] at hcount
  exact ⟨isBlank_of_solid_nil (List.eq_nil_of_length_eq_zero (by omega)),
    List.count_eq_zero.mp (by omega)⟩

/-- Two texts that begin alike and have as many bytes and rows differ by white space at the end. -/
theorem exists_common_front {t u z : Text} (hfront : u <+: t ++ z)
    (hsolid : (solid u).length = (solid t).length) (hcount : u.count newline = t.count newline) :
    ∃ front w w', Padding w ∧ Padding w' ∧ t = front ++ w ∧ u = front ++ w' := by
  rcases List.prefix_or_prefix_of_prefix hfront (List.prefix_append t z) with ⟨w, rfl⟩ | ⟨w, rfl⟩
  · exact ⟨u, w, [], padding_of_append hsolid.symm hcount.symm, padding_nil, rfl,
      (List.append_nil _).symm⟩
  · exact ⟨t, [], w, padding_nil, padding_of_append hsolid hcount, (List.append_nil _).symm, rfl⟩

theorem length_splitLines (t : Text) : (splitLines t).length = t.count newline + 1 := by
  induction t with
  | nil => rfl
  | cons b t ih =>
    by_cases hb : b = newline
    · rw [hb, splitLines_newline, List.length_cons, ih, List.count_cons_self]
    · obtain ⟨l, ls, hl⟩ := List.exists_cons_of_ne_nil (splitLines_ne_nil t)
      rw [splitLines_cons hb hl, List.count_cons_of_ne hb, ← ih, hl]
      rfl

theorem splitLines_append_front {g t l : Text} {ls : List Text} (hg : newline ∉ g)
    (h : splitLines t = l :: ls) : splitLines (g ++ t) = (g ++ l) :: ls := by
  induction g with
  | nil => exact h
  | cons b g ih =>
    obtain ⟨hb, hg⟩ := not_or.mp fun hmem => hg (List.mem_cons.mpr hmem)
    exact splitLines_cons (Ne.symm hb) (ih hg)

theorem splitLines_append_back {t w l : Text} {ls : List Text} (hw : newline ∉ w)
    (h : splitLines t = ls ++ [l]) : splitLines (t ++ w) = ls ++ [l ++ w] := by
  have htext : t ++ w = joinLines (ls ++ [l ++ w]) := by
    rw [joinLines_concat_append, ← h, joinLines_splitLines]
  rw [htext]
  refine splitLines_joinLines (by simp) fun m hm => ?_
  have hrows : ∀ k ∈ ls ++ [l], newline ∉ k := fun k hk hmem =>
    (mem_of_mem_splitLines (h ▸ hk) hmem).2 rfl
  rcases List.mem_append.mp hm with hm | hm
  · exact hrows m (List.mem_append_left _ hm)
  · rw [List.mem_singleton.mp hm]
    exact fun hmem => (List.mem_append.mp hmem).elim (hrows l (by simp)) hw

/-- Padding around a text makes no difference to how its rows are laid out. -/
theorem mapIdx_relaid_pad {inside openEnd : Nat → Bool} {g t w : Text} (hg : Padding g) (hw : Padding w)
    (hinside : inside 0 = false) (hopen : openEnd ((splitLines t).length - 1) = false) :
    (splitLines (g ++ t ++ w)).mapIdx (fun k raw => Row.relaid (inside k) (openEnd k) raw) =
      (splitLines t).mapIdx fun k raw => Row.relaid (inside k) (openEnd k) raw := by
  have hback : (splitLines (t ++ w)).mapIdx (fun k raw => Row.relaid (inside k) (openEnd k) raw) =
      (splitLines t).mapIdx fun k raw => Row.relaid (inside k) (openEnd k) raw := by
    obtain ⟨ls, l, h⟩ := (List.eq_nil_or_concat (splitLines t)).resolve_left (splitLines_ne_nil t)
    rw [List.concat_eq_append] at h
    rw [h, List.length_append, List.length_singleton, Nat.add_sub_cancel] at hopen
    have hlast := @Row.relaid_pad (inside ls.length) (openEnd ls.length) [] w (by simp) hw.1 (by simp)
      (by simp [hopen]) l
    rw [splitLines_append_back hw.2 h, h, List.mapIdx_append, List.mapIdx_append]
    simp only [List.mapIdx_cons, List.mapIdx_nil, Nat.zero_add]
    rw [← hlast, List.nil_append]
  rw [← hback, List.append_assoc]
  obtain ⟨l, ls, h⟩ := List.exists_cons_of_ne_nil (splitLines_ne_nil (t ++ w))
  have hhead := @Row.relaid_pad (inside 0) (openEnd 0) g [] hg.1 (by simp) (by simp [hinside]) (by simp) l
  rw [List.append_nil] at hhead
  rw [splitLines_append_front hg.2 h, h, List.mapIdx_cons, List.mapIdx_cons, hhead]

/-- A byte other than white space is told by the number of those in front of it. -/
theorem offset_eq_of_solid {t : Text} {p q : Nat} {b c : UInt8} (hp : t[p]? = some b)
    (hq : t[q]? = some c) (hb : isBlank b = false) (hc : isBlank c = false)
    (h : (solid (t.take p)).length = (solid (t.take q)).length) : p = q := by
  have hlt : ∀ {p q : Nat} {b : UInt8}, t[p]? = some b → isBlank b = false → p < q →
      (solid (t.take p)).length < (solid (t.take q)).length := by
    intro p q b hp hb hpq
    have hnext : solid (t.take (p + 1)) = solid (t.take p) ++ [b] := by
      rw [List.take_add_one, hp, solid_append]
      simp [solid, hb]
    have hle : (solid (t.take (p + 1))).length ≤ (solid (t.take q)).length :=
      ((List.take_sublist_take_left hpq).filter _).length_le
    rw [hnext, List.length_append] at hle
    exact hle
  rcases Nat.lt_trichotomy p q with hpq | rfl | hpq
  · exact absurd h (hlt hp hb hpq).ne
  · rfl
  · exact absurd h.symm (hlt hq hc hpq).ne

/-! ## The same token in two texts -/

/-- The token `l'` of `text'` is the token `l` of `text`: the same bytes below a node of the same kind. At
the end of a comment there may be other white space, with as many line feeds. -/
structure Leaf.Same (text text' : Text) (l l' : Leaf) : Prop where
  kind : l'.kind = l.kind
  parent : l'.parent = l.parent
  word : l'.word text' = l.word text ∨ l.kind = "comment" ∧
    trimEnd (l'.word text') = trimEnd (l.word text) ∧
      (l'.word text').count newline = (l.word text).count newline

namespace Leaf.Same

variable {text text' : Text} {l l' : Leaf}

theorem solidRows_eq (h : Leaf.Same text text' l l') (r : Nat) :
    solidRows r (l.word text) = solidRows r (l'.word text') := by
  rcases h.word with hword | ⟨-, htrim, -⟩
  · rw [hword]
  · rw [← solidRows_trimEnd, ← htrim, solidRows_trimEnd]

theorem count_newline_eq (h : Leaf.Same text text' l l') :
    (l'.word text').count newline = (l.word text).count newline := by
  rcases h.word with hword | ⟨-, -, hcount⟩
  · rw [hword]
  · exact hcount

theorem solid_eq (h : Leaf.Same text text' l l') : solid (l'.word text') = solid (l.word text) := by
  rcases h.word with hword | ⟨-, htrim, -⟩
  · rw [hword]
  · rw [← solid_trimEnd, htrim, solid_trimEnd]

end Leaf.Same

theorem solidCount_of_same {text text' : Text} {ls ls' : List Leaf}
    (h : List.Forall₂ (Leaf.Same text text') ls ls') : solidCount text' ls' = solidCount text ls := by
  induction h with
  | nil => rfl
  | cons hhead _ ih =>
    rw [solidCount, solidCount, List.map_cons, List.map_cons, List.sum_cons, List.sum_cons, hhead.solid_eq]
    exact congrArg _ ih

/-! ## The lines of a fragment -/

namespace Leaf

/-- The fragment of some tokens. -/
def fragment (text : Text) (ls : List Leaf) : Fragment :=
  ofPlaced (Source.ofText text).rows (ls.map (Leaf.place (Source.ofText text)))

/-- The line that the row `i` of the tokens `ls` becomes, counted from the first one. -/
def lineOf (text : Text) (ls : List Leaf) (first last : Leaf) (i : Nat) : Nat :=
  rank (bareRow text ls first last) (text.point first.start).row i

/-- The rows of the tokens `ls` that become lines. -/
def lineRowsOf (text : Text) (ls : List Leaf) (first last : Leaf) : List Nat :=
  keptRows (bareRow text ls first last) (text.point first.start).row
    ((text.point last.stop).row + 1 - (text.point first.start).row)

/-- The lines follow one another. -/
theorem map_lineOf (text : Text) (ls : List Leaf) (first last : Leaf) (r : Nat) :
    (lineRowsOf text ls first last).map (fun i => r + lineOf text ls first last i) =
      List.range' r (lineRowsOf text ls first last).length := by
  have hrank := congrArg (List.map (r + ·))
    (map_rank_keptRows (bareRow text ls first last) (text.point first.start).row
      ((text.point last.stop).row + 1 - (text.point first.start).row))
  rwa [List.map_map, List.map_add_range', Nat.add_zero] at hrank

theorem row_stop (text : Text) {l : Leaf} (h : l.start ≤ l.stop) :
    (text.point l.stop).row = (text.point l.start).row + (l.word text).count newline := by
  rw [point_row, point_row, take_eq_append_drop h, List.count_append]
  rfl

theorem flatMap_filter_of_nil {α β : Type} {p : α → Bool} {f : α → List β} {l : List α}
    (h : ∀ a ∈ l, p a = false → f a = []) : (l.filter p).flatMap f = l.flatMap f := by
  induction l with
  | nil => rfl
  | cons a l ih =>
    have ih := ih fun b hb => h b (List.mem_cons_of_mem a hb)
    rw [List.filter_cons, List.flatMap_cons, ← ih]
    cases hp : p a with
    | true => rfl
    | false => rw [h a List.mem_cons_self hp]; rfl

variable {text : Text} {ls : List Leaf} {first last l : Leaf}

theorem newline_notMem_printed_fragment {indent : Text} (hclean : newline ∉ indent) (depth : Int) :
    ∀ t ∈ (fragment text ls).printed indent depth, newline ∉ t := by
  refine Print.newline_notMem_printed hclean (fun l hl hnewline => ?_) depth
  obtain ⟨r, hr, hmem⟩ := mem_row_of_mem_ofPlaced hl newline hnewline
  exact (mem_of_mem_splitLines hr hmem).2 rfl

theorem tiles_of_gaps {rest : List Leaf}
    (hbounds : ∀ m ∈ rest, m.start < m.stop ∧ m.stop ≤ text.length)
    (hgaps : (l :: rest).IsChain fun a b =>
      a.stop ≤ b.start ∧ ∀ c ∈ (Source.ofText text).slice a.stop b.start, isBlank c = true) :
    Tiles text l.stop rest := by
  induction rest generalizing l with
  | nil => exact .nil _
  | cons m rest ih =>
    obtain ⟨⟨hle, hblank⟩, hrest⟩ := List.isChain_cons_cons.mp hgaps
    obtain ⟨hlt, hend⟩ := hbounds m List.mem_cons_self
    rw [slice_ofText] at hblank
    exact .cons hle (solid_eq_nil hblank) hlt.le hend
      (ih (fun k hk => hbounds k (List.mem_cons_of_mem m hk)) hrest)

section Laid

variable (h : Laid (Source.ofText text) ls) (hfirst : ls.head? = some first)
  (hlast : ls.getLast? = some last)

include h hfirst in
theorem Laid.tiles : Tiles text first.start ls := by
  obtain ⟨rest, rfl⟩ := List.head?_eq_some_iff.mp hfirst
  obtain ⟨hlt, hend⟩ := h.bounds first List.mem_cons_self
  refine .cons le_rfl ?_ hlt.le hend
    (tiles_of_gaps (fun m hm => h.bounds m (List.mem_cons_of_mem first hm)) h.gaps)
  rw [List.drop_eq_nil_of_le (List.length_take_le _ _)]
  rfl

include h hfirst hlast

theorem Laid.first_row_le : (text.point first.start).row ≤ (text.point last.stop).row :=
  row_mono (h.start_lt_stop (List.mem_of_mem_head? hfirst) hlast).le text

/-- The rows of the source text of some tokens. -/
theorem Laid.solidRows_slice :
    solidRows (text.point first.start).row ((text.take last.stop).drop first.start) =
      ls.flatMap fun l => solidRows (text.point l.start).row (l.word text) := by
  have hrows := (h.tiles hfirst).solidRows_take
  have hreach : reach first.start ls = last.stop := by rw [reach, hlast]; rfl
  have hle := (h.start_lt_stop (List.mem_of_mem_head? hfirst) hlast).le
  rw [hreach, take_eq_append_drop hle, solidRows_append, Nat.zero_add, ← point_row] at hrows
  exact List.append_cancel_left hrows

theorem Laid.isGap_iff (i : Nat) (hlow : (text.point first.start).row ≤ i)
    (hhigh : i < (text.point first.start).row +
      ((text.point last.stop).row + 1 - (text.point first.start).row)) :
    (bareRow text ls first last i).row.isGap = true ↔
      (bareRow text ls first last i).row.verbatim = false ∧
        (bareRow text ls first last i).tokens = [] := by
  have hle := h.first_row_le hfirst hlast
  exact h.isGap_bareRow_iff hfirst hlast hlow (by omega)

theorem Laid.isGap_first : (bareRow text ls first last (text.point first.start).row).row.isGap = false :=
  have hmem := List.mem_of_mem_head? hfirst
  h.isGap_bareRow hfirst hlast hmem le_rfl (row_mono (h.bounds first hmem).1.le text)

/-- The lines of a fragment are its kept rows. -/
theorem Laid.rows_fragment : (fragment text ls).map FragmentLine.row =
    (lineRowsOf text ls first last).map fun i => (bareRow text ls first last i).row := by
  rw [fragment, h.ofPlaced_eq_layRows hfirst hlast]
  exact (layRows_keptRows (h.isGap_first hfirst hlast) (h.isGap_iff hfirst hlast)).2

/-- The rows of a token become lines next to each other. -/
theorem Laid.lineOf_add (hl : l ∈ ls) {k : Nat} (hk : k ≤ (l.word text).count newline) :
    lineOf text ls first last ((text.point l.start).row + k) =
      lineOf text ls first last (text.point l.start).row + k := by
  have hstop := row_stop text (h.bounds l hl).1.le
  refine rank_add (row_mono (h.first_start_le hfirst hl) text) fun j hj => ?_
  exact h.isGap_bareRow hfirst hlast hl (by omega) (by omega)

theorem Laid.fragment_ne_nil : fragment text ls ≠ [] := by
  have hplace := congrArg (Option.map (Leaf.place (Source.ofText text))) hfirst
  have hplace' := congrArg (Option.map (Leaf.place (Source.ofText text))) hlast
  rw [← List.head?_map] at hplace
  rw [← List.getLast?_map] at hplace'
  refine ofPlaced_ne_nil hplace hplace' ?_
  have hle := h.first_row_le hfirst hlast
  rwa [← Source.point_ofText, ← Source.point_ofText] at hle

/-- The kept rows are printed one by one. -/
theorem Laid.printedAs_lineRowsOf (indent : Text) (depth : Int) :
    List.Forall₂ (fun i line => (bareRow text ls first last i).row.PrintedAs indent line)
      (lineRowsOf text ls first last) ((fragment text ls).printed indent depth) := by
  have hrows := (fragment text ls).rows_printedAs indent depth
  rw [h.rows_fragment hfirst hlast] at hrows
  exact List.forall₂_map_left_iff.mp hrows

theorem Laid.length_lineRowsOf :
    (lineRowsOf text ls first last).length = lineOf text ls first last (text.point last.stop).row + 1 := by
  have hmem := List.mem_of_getLast? hlast
  have hkept := kept_of_not_isGap (h.isGap_bareRow hfirst hlast hmem
    (row_mono (h.bounds last hmem).1.le text) le_rfl)
  exact rank_succ (h.first_row_le hfirst hlast) hkept

theorem Laid.splitLines_printed {indent : Text} (hclean : newline ∉ indent) (depth : Int) :
    splitLines (joinLines ((fragment text ls).printed indent depth)) =
      (fragment text ls).printed indent depth := by
  refine splitLines_joinLines ?_ (newline_notMem_printed_fragment hclean depth)
  simpa [Fragment.printed] using h.fragment_ne_nil hfirst hlast

/-- There are as many line feeds between the lines as the last line says. -/
theorem Laid.count_newline_printed {indent : Text} (hclean : newline ∉ indent) (depth : Int) :
    (joinLines ((fragment text ls).printed indent depth)).count newline =
      lineOf text ls first last (text.point last.stop).row := by
  have hlength := congrArg List.length (h.splitLines_printed hfirst hlast hclean depth)
  have hrows := (h.printedAs_lineRowsOf hfirst hlast indent depth).length_eq
  rw [length_splitLines, ← hrows, h.length_lineRowsOf hfirst hlast] at hlength
  omega

/-- **The lines that tokens are printed on.** -/
theorem Laid.solidRows_printed {indent : Text} (hindent : ∀ b ∈ indent, isBlank b = true)
    (hclean : newline ∉ indent) (depth : Int) :
    solidRows 0 (joinLines ((fragment text ls).printed indent depth)) =
      ls.flatMap fun l => solidRows (lineOf text ls first last (text.point l.start).row)
        (l.word text) := by
  have hle := (h.start_lt_stop (List.mem_of_mem_head? hfirst) hlast).le
  have hsolid : List.Forall₂ (fun l m => solid l = solid m)
      ((lineRowsOf text ls first last).map fun i => (bareRow text ls first last i).row.text)
      ((fragment text ls).printed indent depth) :=
    List.forall₂_map_left_iff.mpr ((h.printedAs_lineRowsOf hfirst hlast indent depth).imp
      fun i line hprinted => (solid_of_printedAs hindent hprinted).symm)
  have hcut : ∀ i, solid (bareRow text ls first last i).row.text =
      solid (rowCut text.splitLines (text.point first.start) (text.point last.stop) i) :=
    fun i => solid_relaid _ _ _
  -- Rows that are left out have no bytes to print.
  have hnone : ∀ i, kept (bareRow text ls first last) i = false →
      List.replicate (solid (bareRow text ls first last i).row.text).length
        (lineOf text ls first last i) = [] := by
    intro i hi
    have hgap : (bareRow text ls first last i).row.text = [] := by
      simp only [kept, Row.isGap, Bool.not_eq_eq_eq_not, Bool.not_false, Bool.and_eq_true,
        List.isEmpty_iff] at hi
      exact hi.1.2
    rw [hgap]
    rfl
  calc solidRows 0 (joinLines ((fragment text ls).printed indent depth))
      = lineRows 0 ((fragment text ls).printed indent depth) := by
        rw [solidRows_eq_lineRows, h.splitLines_printed hfirst hlast hclean]
    _ = (lineRowsOf text ls first last).flatMap fun i =>
          List.replicate (solid (bareRow text ls first last i).row.text).length
            (lineOf text ls first last i) := by
        rw [← lineRows_congr hsolid]
        exact lineRows_map (map_rank_keptRows _ _ _)
    _ = (List.range' (text.point first.start).row
          ((text.point last.stop).row + 1 - (text.point first.start).row)).flatMap fun i =>
            List.replicate (solid (bareRow text ls first last i).row.text).length
              (lineOf text ls first last i) := flatMap_filter_of_nil fun i _ => hnone i
    _ = (lineRows (text.point first.start).row ((List.range' (text.point first.start).row
          ((text.point last.stop).row + 1 - (text.point first.start).row)).map
            (rowCut text.splitLines (text.point first.start) (text.point last.stop)))).map
              (lineOf text ls first last) := by
        rw [lineRows_map (f := id) (by simp), List.map_flatMap]
        simp only [List.map_replicate, hcut, id]
    _ = (solidRows (text.point first.start).row
          ((text.take last.stop).drop first.start)).map (lineOf text ls first last) := by
        rw [solidRows_eq_lineRows, splitLines_slice hle]
    _ = ls.flatMap fun l => solidRows (lineOf text ls first last (text.point l.start).row)
          (l.word text) := by
        rw [h.solidRows_slice hfirst hlast, List.map_flatMap]
        exact List.flatMap_congr fun l hl => map_solidRows fun j hj => h.lineOf_add hfirst hlast hl hj

end Laid

/-! ## The rows of the same tokens elsewhere -/

theorem exists_word_cons (hsolid : l.beginsSolid (Source.ofText text) = true) (hlt : l.start < l.stop) :
    ∃ b w, l.word text = b :: w ∧ isBlank b = false := by
  obtain ⟨b, hb, hblank, -⟩ := exists_of_any_solid hsolid
  change text[l.start]? = some b at hb
  obtain ⟨k, hk⟩ := Nat.exists_eq_add_of_lt hlt
  obtain ⟨hlength, hget⟩ := List.getElem?_eq_some_iff.mp hb
  have hcount : l.stop - l.start = k + 1 := by omega
  rw [word, List.drop_take, List.drop_eq_getElem_cons hlength, hget, hcount, List.take_succ_cons]
  exact ⟨b, _, rfl, hblank⟩

theorem solid_word_ne_nil (hsolid : l.beginsSolid (Source.ofText text) = true) (hlt : l.start < l.stop) :
    solid (l.word text) ≠ [] := by
  obtain ⟨b, w, hword, hb⟩ := exists_word_cons hsolid hlt
  rw [hword, solid, List.filter_cons, if_pos (by simp [hb])]
  simp

/-- The first line starts with the first token, up to padding. -/
theorem Laid.exists_printed_eq (h : Laid (Source.ofText text) ls) (hfirst : ls.head? = some first)
    (hlast : ls.getLast? = some last) {indent : Text} (hindent : ∀ b ∈ indent, isBlank b = true)
    (hclean : newline ∉ indent) (depth : Int) : ∃ g b y, Padding g ∧ isBlank b = false ∧
    joinLines ((fragment text ls).printed indent depth) = g ++ b :: y := by
  have hrows := h.solidRows_printed hfirst hlast hindent hclean depth
  obtain ⟨rest, rfl⟩ := List.head?_eq_some_iff.mp hfirst
  obtain ⟨c, w, hword, hc⟩ := exists_word_cons (h.head first rfl) (h.bounds first List.mem_cons_self).1
  have hnewline : ∀ {b : UInt8}, isBlank b = false → b ≠ newline := by
    rintro b hb rfl
    exact absurd hb (by decide)
  generalize joinLines ((fragment text (first :: rest)).printed indent depth) = y at hrows ⊢
  have hg : ∀ b ∈ y.takeWhile isBlank, isBlank b = true := fun b hb => List.mem_takeWhile_imp hb
  rw [List.flatMap_cons, hword, solidRows, if_neg (hnewline hc), hc, lineOf, rank_self,
    ← List.takeWhile_append_dropWhile (p := isBlank) (l := y), solidRows_append,
    solidRows_of_solid_nil (solid_eq_nil hg)] at hrows
  cases hy : y.dropWhile isBlank with
  | nil =>
    rw [hy] at hrows
    exact absurd hrows (by simp [solidRows])
  | cons b z =>
    have hb : isBlank b = false := by
      have hhead := List.head_dropWhile_not isBlank (l := y) (by rw [hy]; simp)
      simpa [hy] using hhead
    rw [hy, solidRows, if_neg (hnewline hb), hb] at hrows
    have hcount := (List.cons.inj hrows).1
    refine ⟨y.takeWhile isBlank, b, z, ⟨hg, List.count_eq_zero.mp (by omega)⟩, hb, ?_⟩
    rw [← hy, List.takeWhile_append_dropWhile]

theorem isChain_and {α : Type} {R S : α → α → Prop} {as : List α} (hR : as.IsChain R)
    (hS : as.IsChain S) : as.IsChain fun a b => R a b ∧ S a b := by
  induction as with
  | nil => exact .nil
  | cons a as ih =>
    cases as with
    | nil => exact .singleton a
    | cons b as =>
      obtain ⟨hab, hR⟩ := List.isChain_cons_cons.mp hR
      obtain ⟨hab', hS⟩ := List.isChain_cons_cons.mp hS
      exact List.isChain_cons_cons.mpr ⟨⟨hab, hab'⟩, ih hR hS⟩

/-- A token of white space starts on the row where the one in front of it ends. -/
theorem Laid.row_of_blank (h : Laid (Source.ofText text) ls) : ls.IsChain fun a b =>
    solid (b.word text) = [] → (text.point b.start).row = (text.point a.stop).row := by
  refine (isChain_and h.gaps h.rows).imp_of_mem_imp fun a b _ hb hab hblank => ?_
  obtain ⟨⟨hle, -⟩, hrows⟩ := hab
  rw [lastRow_ofText, firstRow_ofText] at hrows
  refine le_antisymm (not_lt.mp fun hlt => ?_) (row_mono hle text)
  exact solid_word_ne_nil (hrows hlt) (h.bounds b hb).1 hblank

section Same

variable {text' : Text} {ls' : List Leaf} {first' last' : Leaf}

/-- Tokens of white space follow the others. -/
theorem row_eq_of_blank {f : Nat → Nat} {p p' : Leaf}
    (hchain : (p :: ls).IsChain fun a b =>
      solid (b.word text) = [] → (text.point b.start).row = (text.point a.stop).row)
    (hchain' : (p' :: ls').IsChain fun a b =>
      solid (b.word text') = [] → (text'.point b.start).row = (text'.point a.stop).row)
    (hsame : List.Forall₂ (Leaf.Same text text') ls ls')
    (hsolid : List.Forall₂ (fun l l' => solid (l'.word text') ≠ [] →
      (text'.point l'.start).row = f (text.point l.start).row) ls ls')
    (hstop : List.Forall₂ (fun l l' => (text'.point l'.start).row = f (text.point l.start).row →
      (text'.point l'.stop).row = f (text.point l.stop).row) ls ls')
    (hp : (text'.point p'.stop).row = f (text.point p.stop).row) :
    List.Forall₂ (fun l l' => (text'.point l'.start).row = f (text.point l.start).row) ls ls' := by
  induction hsame generalizing p p' with
  | nil => exact .nil
  | @cons l l' ls ls' hword _ ih =>
    obtain ⟨hl, hchain⟩ := List.isChain_cons_cons.mp hchain
    obtain ⟨hl', hchain'⟩ := List.isChain_cons_cons.mp hchain'
    cases hsolid with
    | cons hrow hsolid =>
      cases hstop with
      | cons hnext hstop =>
        have hstart : (text'.point l'.start).row = f (text.point l.start).row := by
          by_cases hblank : solid (l'.word text') = []
          · rw [hl' hblank, hl (hword.solid_eq ▸ hblank), hp]
          · exact hrow hblank
        exact .cons hstart (ih hchain hchain' hsolid hstop (hnext hstart))

theorem forall₂_imp_of_mem {α β : Type} {R S : α → β → Prop} {as : List α} {bs : List β}
    (h : List.Forall₂ R as bs) (himp : ∀ a ∈ as, ∀ b ∈ bs, R a b → S a b) : List.Forall₂ S as bs := by
  induction h with
  | nil => exact .nil
  | cons hhead _ ih =>
    exact .cons (himp _ List.mem_cons_self _ List.mem_cons_self hhead)
      (ih fun a ha b hb => himp a (List.mem_cons_of_mem _ ha) b (List.mem_cons_of_mem _ hb))

theorem mapIdx_eq_map {α β γ : Type} {R : α → β → Prop} {f : α → Nat} {G : Nat → β → γ} {row : α → γ}
    {as : List α} {bs : List β} {c : Nat} (h : List.Forall₂ R as bs)
    (hf : as.map f = List.range' c as.length) (hG : ∀ a ∈ as, ∀ b, R a b → G (f a) b = row a) :
    (bs.mapIdx fun k b => G (c + k) b) = as.map row := by
  induction h generalizing c with
  | nil => rfl
  | @cons a b as bs hhead _ ih =>
    rw [List.map_cons, List.length_cons, List.range'_succ] at hf
    obtain ⟨ha, hrest⟩ := List.cons.inj hf
    rw [List.mapIdx_cons, List.map_cons, Nat.add_zero, ← ha, hG a List.mem_cons_self b hhead, ha]
    simp only [← ih hrest fun x hx => hG x (List.mem_cons_of_mem a hx), Nat.add_assoc, Nat.add_comm 1]

theorem any_eq_of_forall₂ {α β : Type} {p : α → Bool} {q : β → Bool} {as : List α} {bs : List β}
    (h : List.Forall₂ (fun a b => p a = q b) as bs) : as.any p = bs.any q := by
  induction h with
  | nil => rfl
  | cons hhead _ ih => rw [List.any_cons, List.any_cons, hhead, ih]

theorem map_filter_eq_of_forall₂ {α β γ : Type} {p : α → Bool} {q : β → Bool} {f : α → γ} {g : β → γ}
    {as : List α} {bs : List β} (h : List.Forall₂ (fun a b => p a = q b ∧ f a = g b) as bs) :
    (as.filter p).map f = (bs.filter q).map g := by
  induction h with
  | nil => rfl
  | cons hhead _ ih =>
    rw [List.filter_cons, List.filter_cons, hhead.1]
    split
    · rw [List.map_cons, List.map_cons, hhead.2, ih]
    · exact ih

theorem forall₂_head? {α β : Type} {R : α → β → Prop} {as : List α} {bs : List β} {a : α} {b : β}
    (h : List.Forall₂ R as bs) (ha : as.head? = some a) (hb : bs.head? = some b) : R a b := by
  cases h with
  | nil => exact absurd ha (by simp)
  | cons hhead _ =>
    obtain rfl := Option.some.inj ha
    obtain rfl := Option.some.inj hb
    exact hhead

theorem forall₂_getLast? {α β : Type} {R : α → β → Prop} {as : List α} {bs : List β} {a : α} {b : β}
    (h : List.Forall₂ R as bs) (ha : as.getLast? = some a) (hb : bs.getLast? = some b) : R a b := by
  rw [List.getLast?_eq_head?_reverse] at ha hb
  exact forall₂_head? (List.forall₂_reverse_iff.mpr h) ha hb

variable (h : Laid (Source.ofText text) ls) (hfirst : ls.head? = some first)
  (hlast : ls.getLast? = some last) (h' : Laid (Source.ofText text') ls')
  (hsame : List.Forall₂ (Leaf.Same text text') ls ls') {indent : Text}
  (hindent : ∀ b ∈ indent, isBlank b = true) (hclean : newline ∉ indent) {depth : Int}
  {before after : Text} {front : List Leaf}
  (hpart : Part text' before (joinLines ((fragment text ls).printed indent depth)) after front ls')

include h hfirst hlast h' hsame hindent hclean hpart

omit hindent hclean hpart in
/-- A token that starts on the row it was printed on ends on the row where it ended there. -/
theorem Laid.row_stop_of_row_start (r : Nat) : List.Forall₂ (fun l l' =>
    (text'.point l'.start).row = r + lineOf text ls first last (text.point l.start).row →
      (text'.point l'.stop).row = r + lineOf text ls first last (text.point l.stop).row) ls ls' := by
  refine forall₂_imp_of_mem hsame fun l hl l' hl' hword hstart => ?_
  rw [row_stop text' (h'.bounds l' hl').1.le, row_stop text (h.bounds l hl).1.le, hstart,
    hword.count_newline_eq, h.lineOf_add hfirst hlast hl le_rfl, Nat.add_assoc]

/-- **The tokens start on the rows they were printed on**, and end there. -/
theorem Laid.rows_reread : List.Forall₂ (fun l l' =>
    (text'.point l'.start).row =
      before.count newline + lineOf text ls first last (text.point l.start).row ∧
    (text'.point l'.stop).row =
      before.count newline + lineOf text ls first last (text.point l.stop).row) ls ls' := by
  have hrows := hpart.rows_eq
  rw [← Nat.add_zero (before.count newline), ← map_add_solidRows,
    h.solidRows_printed hfirst hlast hindent hclean depth, List.map_flatMap] at hrows
  simp only [map_add_solidRows] at hrows
  have hsolid := firstRow_of_solidRows (hsame.imp fun l l' hl r => hl.solidRows_eq r) hrows
  have hstop := h.row_stop_of_row_start hfirst hlast h' hsame (before.count newline)
  suffices hstart : List.Forall₂ (fun l l' => (text'.point l'.start).row =
      before.count newline + lineOf text ls first last (text.point l.start).row) ls ls' by
    rw [List.forall₂_iff_zip] at hstart hstop ⊢
    exact ⟨hstart.1, fun hmem => ⟨hstart.2 hmem, hstop.2 hmem (hstart.2 hmem)⟩⟩
  have hchain := h.row_of_blank
  have hchain' := h'.row_of_blank
  cases hsame with
  | nil => exact absurd hfirst (by simp)
  | @cons l l' ls ls' hword hrest =>
    cases hsolid with
    | cons hrow hsolid =>
      cases hstop with
      | cons hnext hstop =>
        have hstart := hrow (solid_word_ne_nil (h'.head l' rfl) (h'.bounds l' List.mem_cons_self).1)
        exact .cons hstart
          (row_eq_of_blank (f := fun i => before.count newline + lineOf text _ first last i) hchain hchain'
            hrest hsolid hstop (hnext hstart))

variable (hfirst' : ls'.head? = some first') (hlast' : ls'.getLast? = some last')

include hfirst' hlast'

omit h hfirst hlast hsame hindent hclean hlast' in
/-- The first token stands right behind the padding. -/
theorem Laid.start_first_eq {g y : Text} {b : UInt8} (hg : Padding g) (hb : isBlank b = false)
    (hy : joinLines ((fragment text ls).printed indent depth) = g ++ b :: y) :
    first'.start = (before ++ g).length := by
  obtain ⟨c, hc, hcblank, -⟩ := exists_of_any_solid (h'.head first' hfirst')
  change text'[first'.start]? = some c at hc
  obtain ⟨more, hmore⟩ := hpart.whole
  have hlt : first'.start < text'.length := (List.getElem?_eq_some_iff.mp hc).1
  rw [hy] at hmore
  refine offset_eq_of_solid (t := text' ++ more) (c := b) ?_ ?_ hcblank hb ?_
  · rw [List.getElem?_append_left hlt, hc]
  · rw [hmore]
    simp
  · rw [List.take_append_of_le_length hlt.le, hpart.length_solid_take_start hfirst', hmore]
    have htake : (before ++ (g ++ b :: y) ++ after).take (before ++ g).length = before ++ g := by
      rw [← List.append_assoc, List.append_assoc (before ++ g), List.take_left]
    rw [htake, solid_append, solid_eq_nil hg.1, List.append_nil]

/-- **Where the tokens stand**: they start on the row the part starts on and end on the row it ends on. -/
theorem Laid.rows_of_part : (text'.point first'.start).row = before.count newline ∧
    (text'.point last'.stop).row = before.count newline +
      (joinLines ((fragment text ls).printed indent depth)).count newline := by
  have hrows := h.rows_reread hfirst hlast h' hsame hindent hclean hpart
  have hhead := forall₂_head? hrows hfirst hfirst'
  have hend := forall₂_getLast? hrows hlast hlast'
  refine ⟨hhead.1.trans ?_, hend.2.trans ?_⟩
  · rw [lineOf, rank_self, Nat.add_zero]
  · rw [h.count_newline_printed hfirst hlast hclean depth]

/-- The part and the source text of the tokens are the same up to padding. -/
theorem Laid.exists_padded : ∃ g t w w', Padding g ∧ Padding w ∧ Padding w' ∧
    joinLines ((fragment text ls).printed indent depth) = g ++ t ++ w ∧
    (text'.take last'.stop).drop first'.start = t ++ w' := by
  obtain ⟨g, b, y, hg, hb, hy⟩ := h.exists_printed_eq hfirst hlast hindent hclean depth
  have hstart := h'.start_first_eq hpart hfirst' hg hb hy
  have hle := (h'.start_lt_stop (List.mem_of_mem_head? hfirst') hlast').le
  have hrows := h.rows_of_part hfirst hlast h' hsame hindent hclean hpart hfirst' hlast'
  have hwhole : (text'.take last'.stop).drop first'.start <+: (b :: y) ++ after := by
    have hfront := ((List.take_prefix last'.stop text').trans hpart.whole).drop first'.start
    rw [hy, hstart, ← List.append_assoc, List.append_assoc (before ++ g), List.drop_left] at hfront
    rwa [hstart]
  have hsolid : (solid ((text'.take last'.stop).drop first'.start)).length =
      (solid (b :: y)).length := by
    have hstop := hpart.length_solid_take_stop hlast'
    rw [take_eq_append_drop hle, solid_append, List.length_append,
      hpart.length_solid_take_start hfirst', hy, solid_append, solid_eq_nil hg.1] at hstop
    exact Nat.add_left_cancel hstop
  have hcount : ((text'.take last'.stop).drop first'.start).count newline =
      (b :: y).count newline := by
    have hstop := hrows.2
    rw [point_row, take_eq_append_drop hle, List.count_append, ← point_row, hrows.1, hy,
      List.count_append, List.count_eq_zero.mpr hg.2, Nat.zero_add] at hstop
    exact Nat.add_left_cancel hstop
  obtain ⟨t, w, w', hw, hw', ht, hu⟩ := exists_common_front hwhole hsolid hcount
  exact ⟨g, t, w, w', hg, hw, hw', by rw [hy, ht, List.append_assoc], hu⟩

theorem Laid.length_printed :
    ((text'.point last'.stop).row + 1 - (text'.point first'.start).row) =
      (lineRowsOf text ls first last).length := by
  have hrows := h.rows_of_part hfirst hlast h' hsame hindent hclean hpart hfirst' hlast'
  rw [hrows.1, hrows.2, h.count_newline_printed hfirst hlast hclean, h.length_lineRowsOf hfirst hlast]
  omega

omit hfirst' hlast' in
/-- The rows that start or end inside a token, and the tokens of each row, are those they were printed
from. -/
theorem Laid.tokens_reread {i : Nat} (hi : i ∈ lineRowsOf text ls first last) :
    anyInside (Source.ofText text') ls' (before.count newline + lineOf text ls first last i) =
      anyInside (Source.ofText text) ls i ∧
    anyOpen (Source.ofText text') ls' (before.count newline + lineOf text ls first last i) =
      anyOpen (Source.ofText text) ls i ∧
    (ls'.filter fun l => (text'.point l.start).row ==
        before.count newline + lineOf text ls first last i).map (fun l => (l.kind, l.parent)) =
      (ls.filter fun l => (text.point l.start).row == i).map fun l => (l.kind, l.parent) := by
  have hrows := h.rows_reread hfirst hlast h' hsame hindent hclean hpart
  obtain ⟨hrange, hkept⟩ := List.mem_filter.mp hi
  obtain ⟨hlow, -⟩ := List.mem_range'_1.mp hrange
  -- Lines are in the order of the rows, for the rows of tokens as for the row `i`.
  have hkeptRow : ∀ l ∈ ls, ∀ j, (text.point l.start).row ≤ j → j ≤ (text.point l.stop).row →
      (text.point first.start).row ≤ j ∧ kept (bareRow text ls first last) j = true :=
    fun l hl j hj hj' => ⟨(row_mono (h.first_start_le hfirst hl) text).trans hj,
      kept_of_not_isGap (h.isGap_bareRow hfirst hlast hl hj hj')⟩
  have horder : ∀ l ∈ ls,
      (lineOf text ls first last (text.point l.start).row < lineOf text ls first last i ↔
        (text.point l.start).row < i) ∧
      (lineOf text ls first last (text.point l.stop).row < lineOf text ls first last i ↔
        (text.point l.stop).row < i) ∧
      (lineOf text ls first last i < lineOf text ls first last (text.point l.start).row ↔
        i < (text.point l.start).row) ∧
      (lineOf text ls first last i < lineOf text ls first last (text.point l.stop).row ↔
        i < (text.point l.stop).row) := by
    intro l hl
    have hle := row_mono (h.bounds l hl).1.le text
    obtain ⟨hstart, hkeptStart⟩ := hkeptRow l hl _ le_rfl hle
    obtain ⟨hstop, hkeptStop⟩ := hkeptRow l hl _ hle le_rfl
    exact ⟨rank_lt_iff hstart hkeptStart, rank_lt_iff hstop hkeptStop, rank_lt_iff hlow hkept,
      rank_lt_iff hlow hkept⟩
  refine ⟨?_, ?_, ?_⟩
  · refine any_eq_of_forall₂ (forall₂_imp_of_mem hrows.flip fun l' _ l hl hrow => ?_)
    obtain ⟨hstart, hstop, -, -⟩ := horder l hl
    rw [firstRow_ofText, lastRow_ofText, firstRow_ofText, lastRow_ofText, hrow.1, hrow.2]
    refine congrArg₂ _ (decide_eq_decide.mpr ?_) (decide_eq_decide.mpr ?_)
    · rw [← hstart]
      omega
    · rw [← not_lt, ← not_lt, ← hstop]
      omega
  · refine any_eq_of_forall₂ (forall₂_imp_of_mem hrows.flip fun l' _ l hl hrow => ?_)
    obtain ⟨-, -, hstart, hstop⟩ := horder l hl
    rw [firstRow_ofText, lastRow_ofText, firstRow_ofText, lastRow_ofText, hrow.1, hrow.2]
    refine congrArg₂ _ (decide_eq_decide.mpr ?_) (decide_eq_decide.mpr ?_)
    · rw [← not_lt, ← not_lt, ← hstart]
      omega
    · rw [← hstop]
      omega
  · refine map_filter_eq_of_forall₂ ?_
    rw [List.forall₂_iff_zip] at hrows hsame ⊢
    refine ⟨hrows.1.symm, fun {l' l} hmem => ?_⟩
    have hzip : (l, l') ∈ ls.zip ls' := by
      have hswap := List.mem_map_of_mem (f := Prod.swap) hmem
      rwa [List.zip_swap] at hswap
    obtain ⟨hstart, -, hstart', -⟩ := horder l (List.of_mem_zip hzip).1
    refine ⟨?_, by rw [(hsame.2 hzip).kind, (hsame.2 hzip).parent]⟩
    rw [(hrows.2 hzip).1]
    refine beq_eq_beq.mpr ?_
    omega

/-- **The rows of the tokens are the rows they were printed from.** -/
theorem Laid.bareRow_reread {i : Nat} (hi : i ∈ lineRowsOf text ls first last) :
    bareRow text' ls' first' last' (before.count newline + lineOf text ls first last i) =
      bareRow text ls first last i := by
  obtain ⟨hstart, hstop⟩ := h.rows_of_part hfirst hlast h' hsame hindent hclean hpart hfirst' hlast'
  have hlength := h.length_printed hfirst hlast h' hsame hindent hclean hpart hfirst' hlast'
  have hle := (h'.start_lt_stop (List.mem_of_mem_head? hfirst') hlast').le
  have hlines := map_lineOf text ls first last (before.count newline)
  -- Row by row, the source text of the tokens is the part, up to padding, and this is printed.
  have hrows : (List.range' (text'.point first'.start).row
        ((text'.point last'.stop).row + 1 - (text'.point first'.start).row)).map
          (relaidRow text' ls' first' last') =
      (lineRowsOf text ls first last).map fun i => (bareRow text ls first last i).row := by
    obtain ⟨g, t, w, w', hg, hw, hw', hpadded, hslice⟩ :=
      h.exists_padded hfirst hlast h' hsame hindent hclean hpart hfirst' hlast'
    have hinside : anyInside (Source.ofText text') ls' (before.count newline + 0) = false :=
      Bool.eq_false_iff.mpr fun hin => h'.ne_first_of_inside hfirst' hin (by rw [hstart, Nat.add_zero])
    have hopen : anyOpen (Source.ofText text') ls'
        (before.count newline + ((splitLines t).length - 1)) = false := by
      have hcount := congrArg (List.count newline) hpadded
      rw [List.count_append, List.count_append, List.count_eq_zero.mpr hg.2,
        List.count_eq_zero.mpr hw.2] at hcount
      refine Bool.eq_false_iff.mpr fun hany => ?_
      obtain ⟨l, hl, hrow⟩ := List.any_eq_true.mp hany
      have hlt : before.count newline + ((splitLines t).length - 1) < (text'.point l.stop).row := by
        rw [lastRow_ofText] at hrow
        simpa using (Bool.and_eq_true_iff.mp hrow).2
      have hmono := row_mono (h'.stop_le_last hl hlast') text'
      rw [length_splitLines] at hlt
      omega
    calc (List.range' (text'.point first'.start).row
          ((text'.point last'.stop).row + 1 - (text'.point first'.start).row)).map
            (relaidRow text' ls' first' last')
        = (splitLines ([] ++ t ++ w')).mapIdx fun k raw =>
            Row.relaid (anyInside (Source.ofText text') ls' (before.count newline + k))
              (anyOpen (Source.ofText text') ls' (before.count newline + k)) raw := by
          rw [List.nil_append, ← hslice, splitLines_slice hle, ← hstart]
          exact (mapIdx_map_range' _ (fun i raw => Row.relaid (anyInside (Source.ofText text') ls' i)
            (anyOpen (Source.ofText text') ls' i) raw) _ _).symm
      _ = (splitLines (g ++ t ++ w)).mapIdx fun k raw =>
            Row.relaid (anyInside (Source.ofText text') ls' (before.count newline + k))
              (anyOpen (Source.ofText text') ls' (before.count newline + k)) raw := by
          rw [mapIdx_relaid_pad padding_nil hw' hinside hopen, mapIdx_relaid_pad hg hw hinside hopen]
      _ = ((fragment text ls).printed indent depth).mapIdx fun k raw =>
            Row.relaid (anyInside (Source.ofText text') ls' (before.count newline + k))
              (anyOpen (Source.ofText text') ls' (before.count newline + k)) raw := by
          rw [← hpadded, h.splitLines_printed hfirst hlast hclean]
      _ = (lineRowsOf text ls first last).map fun i => (bareRow text ls first last i).row := by
          refine mapIdx_eq_map (G := fun i raw => Row.relaid (anyInside (Source.ofText text') ls' i)
            (anyOpen (Source.ofText text') ls' i) raw)
            (h.printedAs_lineRowsOf hfirst hlast indent depth) hlines ?_
          intro i hi line hprinted
          obtain ⟨hin, hop, -⟩ := h.tokens_reread hfirst hlast h' hsame hindent hclean hpart hi
          rw [hin, hop]
          exact hprinted.relaid_eq hindent
  rw [hlength, hstart, ← hlines, List.map_map] at hrows
  have hrow := List.map_inj_left.mp hrows i hi
  obtain ⟨-, -, htokens⟩ := h.tokens_reread hfirst hlast h' hsame hindent hclean hpart hi
  rw [bareRow, htokens]
  exact congrArg (BareRow.mk · _) hrow

/-- **A printed fragment is read again as it was.** -/
theorem Laid.fragment_reread : fragment text' ls' = fragment text ls := by
  have hrows := h.rows_of_part hfirst hlast h' hsame hindent hclean hpart hfirst' hlast'
  have hlength := h.length_printed hfirst hlast h' hsame hindent hclean hpart hfirst' hlast'
  have hlow : ∀ i ∈ lineRowsOf text ls first last, (text.point first.start).row ≤ i ∧
      kept (bareRow text ls first last) i = true := fun i hi =>
    ⟨(List.mem_range'_1.mp (List.mem_filter.mp hi).1).1, (List.mem_filter.mp hi).2⟩
  have hkept := kept_of_not_isGap (h.isGap_first hfirst hlast)
  rw [fragment, fragment, h'.ofPlaced_eq_layRows hfirst' hlast', h.ofPlaced_eq_layRows hfirst hlast,
    ← (layRows_keptRows (h.isGap_first hfirst hlast) (h.isGap_iff hfirst hlast)).1, hlength, hrows.1,
    ← map_lineOf, layRows, layRows, List.foldl_map]
  congr 2
  refine List.foldl_ext _ _ _ fun s i hi => ?_
  have hfirstLine := rank_inj (hlow i hi).1 le_rfl (hlow i hi).2 hkept
  rw [rank_self] at hfirstLine
  have hisFirst : (before.count newline + lineOf text ls first last i == before.count newline) =
      (i == (text.point first.start).row) := by
    rw [beq_eq_beq, ← hfirstLine, lineOf]
    omega
  rw [h.bareRow_reread hfirst hlast h' hsame hindent hclean hpart hfirst' hlast' hi, hisFirst]

end Same

end Leaf

end Stopwatch
