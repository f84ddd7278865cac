import Mathlib
import Stopwatch.Proofs.Relaying

/-!
# Printed rows

`Row.PrintedAs`: how a row stands on a line. Two things survive printing whatever the indentation is:
the bytes other than white space, in order, and every token that goes over several rows, byte for byte.

* `solid_joinLines`: the bytes other than white space.
* `slice_infix_joinLines`: the tokens over several rows.
-/

namespace Stopwatch

open Text

/-- A row is printed with some indentation in front, a verbatim row and an empty line without any. -/
def Row.PrintedAs (indent : Text) (r : Row) (line : Text) : Prop :=
  if r.verbatim then line = r.text
  else ∃ levels : Nat, line = if r.text = [] then [] else
    (List.replicate levels indent).flatten ++ r.text

theorem Row.PrintedAs.exists_append {indent : Text} {r : Row} {line : Text}
    (h : r.PrintedAs indent line) : ∃ front, line = front ++ r.text := by
  unfold PrintedAs at h
  split at h
  · exact ⟨[], h⟩
  · obtain ⟨levels, rfl⟩ := h
    split
    · next hnil => exact ⟨[], by rw [hnil, List.append_nil]⟩
    · exact ⟨_, rfl⟩

theorem Row.PrintedAs.eq_text {indent : Text} {r : Row} {line : Text}
    (h : r.PrintedAs indent line) (hverbatim : r.verbatim = true) : line = r.text := by
  rwa [PrintedAs, if_pos hverbatim] at h

/-! ## Bytes other than white space -/

/-- The bytes of a text that are not white space, in order. -/
def solid (t : Text) : Text := t.filter fun b => !isBlank b

theorem solid_append (t u : Text) : solid (t ++ u) = solid t ++ solid u := List.filter_append ..

theorem solid_eq_nil {t : Text} (h : ∀ b ∈ t, isBlank b = true) : solid t = [] :=
  List.filter_eq_nil_iff.mpr fun b hb => by simp [h b hb]

theorem solid_joinLines (ls : List Text) : solid (joinLines ls) = ls.flatMap solid := by
  induction ls with
  | nil => rfl
  | cons l ls ih =>
    cases ls with
    | nil => simp [joinLines]
    | cons m ms =>
      rw [joinLines_cons (by simp), solid_append, List.flatMap_cons, ← ih]
      exact congrArg _ (List.filter_cons_of_neg (by decide))

theorem solid_dropWhile (t : Text) : solid (t.dropWhile isBlank) = solid t := by
  have hsplit : solid (t.takeWhile isBlank ++ t.dropWhile isBlank) =
      solid (t.dropWhile isBlank) := by
    rw [solid_append, solid_eq_nil fun b hb => List.mem_takeWhile_imp hb, List.nil_append]
  rw [← hsplit, List.takeWhile_append_dropWhile]

theorem solid_reverse (t : Text) : solid t.reverse = (solid t).reverse := List.filter_reverse ..

theorem solid_trimEnd (t : Text) : solid t.trimEnd = solid t := by
  rw [trimEnd, solid_reverse, solid_dropWhile, solid_reverse, List.reverse_reverse]

/-- Leaving out white space leaves the other bytes. -/
theorem solid_relaid (inside openEnd : Bool) (raw : Text) :
    solid (Row.relaid inside openEnd raw).text = solid raw := by
  cases inside <;> cases openEnd <;> simp [Row.relaid, solid_trimEnd, solid_dropWhile]

theorem solid_squeeze (rows : List Row) :
    ((Row.squeeze rows).flatMap fun r => solid r.text) = rows.flatMap fun r => solid r.text := by
  have hgap : ∀ r : Row, r.isGap = true → solid r.text = [] := by
    intro r hr
    have hnil : r.text = [] := by
      simp only [Row.isGap, Bool.and_eq_true, List.isEmpty_iff] at hr
      exact hr.2
    rw [hnil]
    rfl
  have hfrom : ∀ (last : Row) (rows : List Row),
      ((rows.destutter' Row.Apart last).flatMap fun r => solid r.text) =
        (last :: rows).flatMap fun r => solid r.text := by
    intro last rows
    induction rows generalizing last with
    | nil => rfl
    | cons r rows ih =>
      by_cases h : Row.Apart last r
      · rw [List.destutter'_cons_pos _ h, List.flatMap_cons, ih r]
        rfl
      · rw [List.destutter'_cons_neg _ h, ih last]
        have hr := hgap r (not_not.mp h).2
        simp [hr]
  cases rows with
  | nil => rfl
  | cons r rows => exact hfrom r rows

theorem solid_of_printedAs {indent : Text} (hindent : ∀ b ∈ indent, isBlank b = true) {r : Row}
    {line : Text} (h : r.PrintedAs indent line) : solid line = solid r.text := by
  unfold Row.PrintedAs at h
  split at h
  · rw [h]
  · obtain ⟨levels, rfl⟩ := h
    split
    · next hnil => rw [hnil]
    · rw [solid_append, solid_eq_nil, List.nil_append]
      intro b hb
      obtain ⟨l, hl, hb⟩ := List.mem_flatten.mp hb
      rw [List.eq_of_mem_replicate hl] at hb
      exact hindent b hb

theorem flatMap_solid_of_printed {indent : Text} (hindent : ∀ b ∈ indent, isBlank b = true)
    {rows : List Row} {lines : List Text} (h : List.Forall₂ (Row.PrintedAs indent) rows lines) :
    lines.flatMap solid = rows.flatMap fun r => solid r.text := by
  induction h with
  | nil => rfl
  | cons hrow _ ih => rw [List.flatMap_cons, List.flatMap_cons, ih, solid_of_printedAs hindent hrow]

theorem flatMap_solid_mapIdx (f : Nat → Text → Row) (hf : ∀ k t, solid (f k t).text = solid t)
    (ts : List Text) : ((ts.mapIdx f).flatMap fun r => solid r.text) = ts.flatMap solid := by
  induction ts generalizing f with
  | nil => rfl
  | cons t ts ih =>
    rw [List.mapIdx_cons, List.flatMap_cons, hf, List.flatMap_cons]
    exact congrArg _ (ih _ fun k => hf (k + 1))

/-- **The bytes other than white space are printed in order**, none is lost and none is added. -/
theorem solid_joinLines_of_printed {indent : Text} (hindent : ∀ b ∈ indent, isBlank b = true)
    {source : Source} {ls : List Leaf} {lines : List Text}
    (h : List.Forall₂ (Row.PrintedAs indent) (Row.squeeze (Leaf.relaidRows source ls)) lines) :
    solid (joinLines lines) = solid (joinLines (Leaf.sourceRows source ls)) := by
  calc solid (joinLines lines)
      = lines.flatMap solid := solid_joinLines lines
    _ = (Row.squeeze (Leaf.relaidRows source ls)).flatMap fun r => solid r.text :=
        flatMap_solid_of_printed hindent h
    _ = (Leaf.relaidRows source ls).flatMap fun r => solid r.text := solid_squeeze _
    _ = (Leaf.sourceRows source ls).flatMap solid :=
        flatMap_solid_mapIdx _ (fun _ _ => solid_relaid _ _ _) _
    _ = solid (joinLines (Leaf.sourceRows source ls)) := (solid_joinLines _).symm

/-! ## Tokens over several rows -/

theorem Row.prefix_destutter' {block : List Row} (hblock : ∀ r ∈ block, r.isGap = false)
    (last : Row) (rest : List Row) :
    last :: block <+: (block ++ rest).destutter' Apart last := by
  induction block generalizing last with
  | nil =>
    rw [List.nil_append]
    induction rest with
    | nil => exact List.prefix_rfl
    | cons r rest ih =>
      by_cases h : Apart last r
      · rw [List.destutter'_cons_pos _ h]
        exact List.prefix_append [last] _
      · rw [List.destutter'_cons_neg _ h]
        exact ih
  | cons r block ih =>
    rw [List.cons_append,
      List.destutter'_cons_pos _ (apart_of_not_isGap (hblock r List.mem_cons_self) last)]
    exact List.cons_prefix_cons.mpr
      ⟨rfl, ih (fun x hx => hblock x (List.mem_cons_of_mem r hx)) r⟩

theorem Row.infix_destutter' {first : Row} {block : List Row}
    (hblock : ∀ r ∈ first :: block, r.isGap = false) (last : Row) (before after : List Row) :
    first :: block <:+: (before ++ first :: block ++ after).destutter' Apart last := by
  have hrest : ∀ r ∈ block, r.isGap = false := fun r hr => hblock r (List.mem_cons_of_mem first hr)
  induction before generalizing last with
  | nil =>
    rw [List.nil_append, List.cons_append,
      List.destutter'_cons_pos _ (apart_of_not_isGap (hblock first List.mem_cons_self) last)]
    exact List.infix_cons (prefix_destutter' hrest first after).isInfix
  | cons r before ih =>
    rw [List.cons_append, List.cons_append]
    by_cases h : Apart last r
    · rw [List.destutter'_cons_pos _ h]
      exact List.infix_cons (ih r)
    · rw [List.destutter'_cons_neg _ h]
      exact ih last

theorem trimEnd_append_cons {b : UInt8} (hb : isBlank b = false) (t rest : Text) :
    trimEnd (t ++ b :: rest) = t ++ b :: trimEnd rest := by
  rw [trimEnd, trimEnd, List.reverse_append, List.reverse_cons, List.append_assoc, List.dropWhile_append]
  split
  · next hnil =>
    rw [List.isEmpty_iff.mp hnil]
    simp [hb]
  · simp

/-- Trimming keeps the front of a text if the last byte of it, or one behind it, is not white space. -/
theorem exists_trimEnd_append {front back : Text} {k : Nat} {b : UInt8} (hk : front.length ≤ k + 1)
    (hget : (front ++ back)[k]? = some b) (hb : isBlank b = false) :
    ∃ more, trimEnd (front ++ back) = front ++ more := by
  obtain ⟨hlt, hget⟩ := List.getElem?_eq_some_iff.mp hget
  have hsplit : front ++ back = (front ++ back).take k ++ b :: (front ++ back).drop (k + 1) := by
    rw [← hget, List.getElem_cons_drop, List.take_append_drop]
  have hfront : (front ++ back).take k ++ [b] = front ++ back.take (k + 1 - front.length) := by
    rw [← hget, ← List.take_succ_eq_append_getElem hlt, List.take_append, List.take_of_length_le hk]
  refine ⟨back.take (k + 1 - front.length) ++ trimEnd ((front ++ back).drop (k + 1)), ?_⟩
  calc trimEnd (front ++ back)
      = (front ++ back).take k ++ b :: trimEnd ((front ++ back).drop (k + 1)) := by
        rw [← trimEnd_append_cons hb, ← hsplit]
    _ = (front ++ back).take k ++ [b] ++ trimEnd ((front ++ back).drop (k + 1)) := by simp
    _ = front ++ (back.take (k + 1 - front.length) ++ trimEnd ((front ++ back).drop (k + 1))) := by
        rw [hfront, List.append_assoc]

/-- Rows that are no empty lines stay together. -/
theorem Row.infix_squeeze {block rows : List Row} (hblock : ∀ r ∈ block, r.isGap = false)
    (h : block <:+: rows) : block <:+: squeeze rows := by
  obtain ⟨before, after, rfl⟩ := h
  cases block with
  | nil => exact List.nil_infix
  | cons first block =>
    cases before with
    | nil =>
      have hrest : ∀ r ∈ block, r.isGap = false :=
        fun r hr => hblock r (List.mem_cons_of_mem first hr)
      exact (prefix_destutter' hrest first after).isInfix
    | cons r before => exact infix_destutter' hblock r before after

namespace Leaf

variable (source : Source)

/-- Whether a token ends with something else than white space. -/
def endsSolid (l : Leaf) : Bool := (source.text[l.stop - 1]?).any fun b => !isBlank b

/-- The token `l` does not end its row with white space: it ends with something else, or another of the
tokens starts behind it on the row it ends on. -/
def EndsKept (ls : List Leaf) (l : Leaf) : Prop :=
  l.endsSolid source = true ∨ ∃ m ∈ ls, l.stop ≤ m.start ∧
    m.firstRow source = l.lastRow source ∧ m.beginsSolid source = true

variable {source} {text : Text} {ls : List Leaf} {first last l : Leaf}

/-- The row `i` of the tokens `ls`, as it is laid out again. -/
def relaidRow (text : Text) (ls : List Leaf) (first last : Leaf) (i : Nat) : Row :=
  .relaid (anyInside (Source.ofText text) ls i) (anyOpen (Source.ofText text) ls i)
    (rowCut text.splitLines (text.point first.start) (text.point last.stop) i)

theorem anyInside_of_mem (hl : l ∈ ls) {i : Nat} (hlow : (text.point l.start).row < i)
    (hhigh : i ≤ (text.point l.stop).row) : anyInside (Source.ofText text) ls i = true := by
  refine List.any_eq_true.mpr ⟨l, hl, ?_⟩
  rw [firstRow_ofText, lastRow_ofText]
  simp [hlow, hhigh]

theorem anyOpen_of_mem (hl : l ∈ ls) {i : Nat} (hlow : (text.point l.start).row ≤ i)
    (hhigh : i < (text.point l.stop).row) : anyOpen (Source.ofText text) ls i = true := by
  refine List.any_eq_true.mpr ⟨l, hl, ?_⟩
  rw [firstRow_ofText, lastRow_ofText]
  simp [hlow, hhigh]

/-- The last row of a token that ends with something else than white space. -/
theorem exists_rowCut_eq_concat (hsolid : l.endsSolid (Source.ofText text) = true)
    (hlt : l.start < l.stop) : ∃ t b, isBlank b = false ∧
      rowCut text.splitLines (text.point l.start) (text.point l.stop) (text.point l.stop).row =
        t ++ [b] := by
  obtain ⟨b, hb, hblank, hne⟩ := exists_of_any_solid hsolid
  change text[l.stop - 1]? = some b at hb
  obtain ⟨n, hn⟩ := Nat.exists_eq_add_of_lt hlt
  have hslice : (text.take l.stop).drop l.start = (text.drop l.start).take n ++ [b] := by
    have hlast : l.stop - 1 = l.start + n := by omega
    have hlength : l.stop - l.start = n + 1 := by omega
    rw [List.drop_take, hlength, List.take_add_one, List.getElem?_drop, ← hlast, hb]
    rfl
  obtain ⟨rows, t, hrows⟩ := exists_splitLines_concat hne ((text.drop l.start).take n)
  have hmono := row_mono hlt.le text
  obtain ⟨k, hk⟩ := Nat.exists_eq_add_of_le hmono
  have hcount : (text.point l.stop).row + 1 - (text.point l.start).row = k + 1 := by omega
  rw [← hslice, splitLines_slice hlt.le, hcount, List.range'_1_concat, List.map_append,
    List.map_singleton, ← hk] at hrows
  exact ⟨t, b, hblank, (List.append_singleton_inj.mp hrows).2⟩

theorem exists_of_forall₂_append {α β : Type} {R : α → β → Prop} {as bs : List α} {cs : List β}
    (h : List.Forall₂ R (as ++ bs) cs) :
    ∃ as' bs', cs = as' ++ bs' ∧ List.Forall₂ R as as' ∧ List.Forall₂ R bs bs' := by
  induction as generalizing cs with
  | nil => exact ⟨[], cs, rfl, .nil, h⟩
  | cons a as ih =>
    cases h with
    | cons hhead htail =>
      obtain ⟨as', bs', rfl, has, hbs⟩ := ih htail
      exact ⟨_ :: as', bs', rfl, .cons hhead has, hbs⟩

theorem lines_eq_of_verbatim {indent : Text} {is : List Nat} {row : Nat → Row} {cut : Nat → Text}
    {lines : List Text} (h : List.Forall₂ (Row.PrintedAs indent) (is.map row) lines)
    (hrow : ∀ i ∈ is, row i = ⟨true, cut i⟩) : lines = is.map cut := by
  induction is generalizing lines with
  | nil => cases h; rfl
  | cons i is ih =>
    cases h with
    | cons hhead htail =>
      rw [hrow i List.mem_cons_self] at hhead
      rw [hhead.eq_text rfl, ih htail fun j hj => hrow j (List.mem_cons_of_mem i hj)]
      rfl

theorem range'_isInfix {a m s n : Nat} (hlow : s ≤ a) (hhigh : a + m ≤ s + n) :
    List.range' a m <:+: List.range' s n := by
  obtain ⟨j, rfl⟩ := Nat.exists_eq_add_of_le hlow
  obtain ⟨k, hk⟩ := Nat.exists_eq_add_of_le hhigh
  refine ⟨List.range' s j, List.range' (s + j + m) k, ?_⟩
  have hn : n = j + m + k := by omega
  rw [hn, List.range'_append_1, Nat.add_assoc s j m, List.range'_append_1]

section Whole

variable (h : Laid (Source.ofText text) ls) (hfirst : ls.head? = some first)
  (hlast : ls.getLast? = some last) (hl : l ∈ ls)

include h hfirst hlast hl

/-- A row inside a token is taken as it is. -/
theorem Laid.relaidRow_middle {i : Nat} (hlow : (text.point l.start).row < i)
    (hhigh : i < (text.point l.stop).row) :
    relaidRow text ls first last i =
      ⟨true, rowCut text.splitLines (text.point l.start) (text.point l.stop) i⟩ := by
  have hinside := anyInside_of_mem hl hlow hhigh.le
  have hne := h.ne_first_of_inside hfirst hinside
  have hle := row_mono (h.stop_le_last hl hlast) text
  have hne' : i ≠ (text.point last.stop).row := by omega
  simp [relaidRow, Row.relaid, hinside, anyOpen_of_mem hl hlow.le hhigh, rowCut, hne, hne', hlow.ne',
    hhigh.ne]

/-- The row on which a token over several rows starts ends with the start of the token. -/
theorem Laid.exists_relaidRow_first (hspan : (text.point l.start).row < (text.point l.stop).row) :
    ∃ front, (relaidRow text ls first last (text.point l.start).row).text =
        front ++ rowCut text.splitLines (text.point l.start) (text.point l.stop)
          (text.point l.start).row ∧
      (relaidRow text ls first last (text.point l.start).row).isGap = false := by
  have hle := row_mono (h.stop_le_last hl hlast) text
  have hne : (text.point l.start).row ≠ (text.point last.stop).row := by omega
  have hopen := anyOpen_of_mem hl le_rfl hspan
  have hcut : rowCut text.splitLines (text.point l.start) (text.point l.stop)
      (text.point l.start).row =
        (text.splitLines.getD (text.point l.start).row []).drop (text.point l.start).col := by
    simp [rowCut, hspan.ne]
  rw [hcut]
  cases hinside : anyInside (Source.ofText text) ls (text.point l.start).row with
  | true =>
    have hne' := h.ne_first_of_inside hfirst hinside
    have hrow : relaidRow text ls first last (text.point l.start).row =
        ⟨true, text.splitLines.getD (text.point l.start).row []⟩ := by
      simp [relaidRow, Row.relaid, hinside, hopen, rowCut, hne, hne']
    rw [hrow]
    exact ⟨_, (List.take_append_drop _ _).symm, rfl⟩
  | false =>
    have hmem : l ∈ ls.filter (fun x => (text.point x.start).row == (text.point l.start).row) :=
      List.mem_filter.mpr ⟨hl, by simp⟩
    obtain ⟨m, more, hfilter⟩ := List.exists_cons_of_ne_nil (List.ne_nil_of_mem hmem)
    obtain ⟨b, rest, hb, hm, hdrop⟩ := h.token_row hfirst hlast (hspan.le.trans hle) hinside hfilter
    obtain ⟨-, hrow⟩ := mem_of_filter_eq_cons hfilter
    have hcol : (text.point m.start).col ≤ (text.point l.start).col := by
      refine col_mono ?_ hrow
      have hpairwise := h.pairwise.filter fun x => (text.point x.start).row == (text.point l.start).row
      rw [hfilter] at hmem hpairwise
      rcases List.mem_cons.mp hmem with rfl | hmem
      · exact le_rfl
      · exact (List.pairwise_cons.mp hpairwise).1 l hmem
    have hrelaid : relaidRow text ls first last (text.point l.start).row = ⟨false, b :: rest⟩ := by
      simp [relaidRow, Row.relaid, hinside, hopen, hdrop]
    have hgap : (relaidRow text ls first last (text.point l.start).row).isGap = false := by
      rw [hrelaid]
      rfl
    obtain ⟨k, hk⟩ := Nat.exists_eq_add_of_le hcol
    refine ⟨((text.splitLines.getD (text.point l.start).row []).drop (text.point m.start).col).take k,
      ?_, hgap⟩
    rw [hrelaid, ← hm]
    simp only [rowCut, hrow, hne, if_true, if_false]
    rw [hk, ← List.drop_drop, List.take_append_drop]

omit hfirst in
/-- What stands on the last row of a token is not taken for trailing white space. -/
theorem Laid.exists_trimEnd_eq {raw back : Text} (hkept : EndsKept (Source.ofText text) ls l)
    (hspan : (text.point l.start).row < (text.point l.stop).row)
    (hraw : raw = if (text.point l.stop).row = (text.point last.stop).row
      then (text.splitLines.getD (text.point l.stop).row []).take (text.point last.stop).col
      else text.splitLines.getD (text.point l.stop).row [])
    (hback : raw = (text.splitLines.getD (text.point l.stop).row []).take (text.point l.stop).col ++
      back) :
    ∃ more, trimEnd raw =
      (text.splitLines.getD (text.point l.stop).row []).take (text.point l.stop).col ++ more := by
  rw [hback]
  rcases hkept with hsolid | ⟨m, hm, hbehind, hrow, hsolid⟩
  · -- The last byte of the token.
    obtain ⟨t, b, hb, hcut⟩ := exists_rowCut_eq_concat hsolid (h.bounds l hl).1
    have htake : (text.splitLines.getD (text.point l.stop).row []).take (text.point l.stop).col =
        t ++ [b] := by
      rw [← hcut]
      simp [rowCut, hspan.ne']
    rw [htake]
    exact exists_trimEnd_append (k := t.length) (by simp) (by simp) hb
  · -- The first byte of the token behind it.
    rw [firstRow_ofText, lastRow_ofText] at hrow
    obtain ⟨b, rest, hb, hcut⟩ := exists_rowCut_eq_cons hsolid (h.start_lt_stop hm hlast)
    have hdrop : raw.drop (text.point m.start).col = b :: rest := by
      rw [← hcut, hraw, ← hrow]
      simp [rowCut]
    have hget : raw[(text.point m.start).col]? = some b := by
      rw [← List.head?_drop, hdrop]
      rfl
    have hcol : (text.point l.stop).col ≤ (text.point m.start).col := col_mono hbehind hrow.symm
    rw [hback] at hget
    exact exists_trimEnd_append
      ((List.length_take_le _ _).trans (hcol.trans (Nat.le_succ _))) hget hb

/-- The row on which a token over several rows ends starts with the end of the token, of which no white
space is lost. -/
theorem Laid.exists_relaidRow_last (hspan : (text.point l.start).row < (text.point l.stop).row)
    (hkept : EndsKept (Source.ofText text) ls l) :
    ∃ back, relaidRow text ls first last (text.point l.stop).row =
      ⟨true, rowCut text.splitLines (text.point l.start) (text.point l.stop)
        (text.point l.stop).row ++ back⟩ := by
  have hinside := anyInside_of_mem hl hspan le_rfl
  have hne := h.ne_first_of_inside hfirst hinside
  obtain ⟨raw, hraw⟩ : ∃ raw, raw = if (text.point l.stop).row = (text.point last.stop).row
      then (text.splitLines.getD (text.point l.stop).row []).take (text.point last.stop).col
      else text.splitLines.getD (text.point l.stop).row [] := ⟨_, rfl⟩
  have hcut : rowCut text.splitLines (text.point l.start) (text.point l.stop)
      (text.point l.stop).row =
        (text.splitLines.getD (text.point l.stop).row []).take (text.point l.stop).col := by
    simp [rowCut, hspan.ne']
  have hrelaid : relaidRow text ls first last (text.point l.stop).row =
      ⟨true, if anyOpen (Source.ofText text) ls (text.point l.stop).row then raw
        else trimEnd raw⟩ := by
    simp [relaidRow, Row.relaid, hinside, rowCut, hne, hraw]
  obtain ⟨back, hback⟩ : ∃ back, raw =
      (text.splitLines.getD (text.point l.stop).row []).take (text.point l.stop).col ++ back := by
    rw [hraw]
    split
    · next heq =>
      have hcol := col_mono (h.stop_le_last hl hlast) heq
      obtain ⟨back, hback⟩ := List.take_prefix_take_left hcol
      exact ⟨back, hback.symm⟩
    · exact ⟨_, (List.take_append_drop _ _).symm⟩
  rw [hrelaid, hcut]
  split
  · exact ⟨back, by rw [hback]⟩
  · obtain ⟨more, hmore⟩ := h.exists_trimEnd_eq hlast hl hkept hspan hraw hback
    exact ⟨more, by rw [hmore]⟩

/-- None of the rows a token goes over is an empty line. -/
theorem Laid.isGap_relaidRow (hspan : (text.point l.start).row < (text.point l.stop).row)
    (hkept : EndsKept (Source.ofText text) ls l) {i : Nat} (hlow : (text.point l.start).row ≤ i)
    (hhigh : i ≤ (text.point l.stop).row) : (relaidRow text ls first last i).isGap = false := by
  rcases hlow.eq_or_lt with rfl | hlow
  · obtain ⟨-, -, hgap⟩ := h.exists_relaidRow_first hfirst hlast hl hspan
    exact hgap
  rcases hhigh.eq_or_lt with rfl | hhigh
  · obtain ⟨back, hback⟩ := h.exists_relaidRow_last hfirst hlast hl hspan hkept
    rw [hback]
    rfl
  · rw [h.relaidRow_middle hfirst hlast hl hlow hhigh]
    rfl

/-- The lines of the rows a token goes over are the rows of the token, with text in front of the first one
and behind the last one. -/
theorem Laid.exists_lines_eq (hspan : (text.point l.start).row < (text.point l.stop).row)
    (hkept : EndsKept (Source.ofText text) ls l) {indent : Text} {lines : List Text}
    (hprinted : List.Forall₂ (Row.PrintedAs indent)
      ((List.range' (text.point l.start).row
        ((text.point l.stop).row + 1 - (text.point l.start).row)).map
          (relaidRow text ls first last)) lines) :
    ∃ front back, joinLines lines =
      front ++ (Source.ofText text).slice l.start l.stop ++ back := by
  obtain ⟨n, hn⟩ := Nat.exists_eq_add_of_lt hspan
  have hrange : List.range' (text.point l.start).row
      ((text.point l.stop).row + 1 - (text.point l.start).row) =
        (text.point l.start).row :: (List.range' ((text.point l.start).row + 1) n ++
          [(text.point l.stop).row]) := by
    have hcount : (text.point l.stop).row + 1 - (text.point l.start).row = (n + 1) + 1 := by omega
    have hlast : (text.point l.start).row + 1 + n = (text.point l.stop).row := by omega
    rw [hcount, List.range'_succ, List.range'_1_concat, hlast]
  have hrows := splitLines_slice (h.bounds l hl).1.le text
  rw [hrange, List.map_cons, List.map_append, List.map_singleton] at hrows hprinted
  obtain ⟨front, hfront, -⟩ := h.exists_relaidRow_first hfirst hlast hl hspan
  obtain ⟨back, hback⟩ := h.exists_relaidRow_last hfirst hlast hl hspan hkept
  cases hprinted with
  | cons hhead htail =>
    obtain ⟨middle, ends, rfl, hmiddle, hends⟩ := exists_of_forall₂_append htail
    obtain ⟨front', rfl⟩ := hhead.exists_append
    have hmiddleEq : middle = (List.range' ((text.point l.start).row + 1) n).map
        (rowCut text.splitLines (text.point l.start) (text.point l.stop)) := by
      refine lines_eq_of_verbatim hmiddle fun i hi => ?_
      obtain ⟨hlow, hhigh⟩ := List.mem_range'_1.mp hi
      exact h.relaidRow_middle hfirst hlast hl (by omega) (by omega)
    cases hends with
    | cons hend hnil =>
      cases hnil
      rw [hback] at hend
      obtain rfl := hend.eq_text rfl
      refine ⟨front' ++ front, back, ?_⟩
      rw [hfront, hmiddleEq, ← List.append_assoc, joinLines_cons_append, ← List.cons_append,
        joinLines_concat_append, List.cons_append, ← hrows, joinLines_splitLines, slice_ofText]
      simp

end Whole

/-- **A token over several rows is printed byte for byte**, unless it leaves white space at the end of a
row. -/
theorem Laid.slice_infix_joinLines (h : Laid (Source.ofText text) ls) (hl : l ∈ ls)
    (hspan : (text.point l.start).row < (text.point l.stop).row)
    (hkept : EndsKept (Source.ofText text) ls l) {indent : Text} {lines : List Text}
    (hprinted : List.Forall₂ (Row.PrintedAs indent)
      (Row.squeeze (relaidRows (Source.ofText text) ls)) lines) :
    (Source.ofText text).slice l.start l.stop <:+: joinLines lines := by
  obtain ⟨first, rest, hls⟩ := List.exists_cons_of_ne_nil (List.ne_nil_of_mem hl)
  have hfirst : ls.head? = some first := by rw [hls]; rfl
  obtain ⟨last, hlast⟩ : ∃ last, ls.getLast? = some last :=
    ⟨_, List.getLast?_eq_some_getLast (List.ne_nil_of_mem hl)⟩
  have hstart := row_mono (h.first_start_le hfirst hl) text
  have hstop := row_mono (h.stop_le_last hl hlast) text
  have hblock : (List.range' (text.point l.start).row
      ((text.point l.stop).row + 1 - (text.point l.start).row)).map (relaidRow text ls first last) <:+:
        Row.squeeze (relaidRows (Source.ofText text) ls) := by
    refine Row.infix_squeeze (fun r hr => ?_) ?_
    · obtain ⟨i, hi, rfl⟩ := List.mem_map.mp hr
      obtain ⟨hlow, hhigh⟩ := List.mem_range'_1.mp hi
      exact h.isGap_relaidRow hfirst hlast hl hspan hkept hlow (by omega)
    · rw [relaidRows_eq_map h hfirst hlast]
      exact List.IsInfix.map _ (range'_isInfix hstart (by omega))
  obtain ⟨before, after, hsplit⟩ := hblock
  rw [← hsplit] at hprinted
  obtain ⟨front, behind, rfl, hfront, -⟩ := exists_of_forall₂_append hprinted
  obtain ⟨above, block, rfl, -, hblock⟩ := exists_of_forall₂_append hfront
  obtain ⟨pre, post, hjoin⟩ := h.exists_lines_eq hfirst hlast hl hspan hkept hblock
  have hslice : (Source.ofText text).slice l.start l.stop <:+: joinLines block :=
    ⟨pre, post, hjoin.symm⟩
  exact hslice.trans (joinLines_isInfix ⟨above, behind, rfl⟩)

end Leaf

end Stopwatch
