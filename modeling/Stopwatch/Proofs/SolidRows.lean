import Mathlib
import Stopwatch.Proofs.WholeTokens

/-!
# The rows that bytes stand on

`solidRows r t` lists the rows of the bytes of `t` other than white space, for a text that starts on the
row `r`. It is taken apart where the text is, and white space leaves no trace in it. So where tokens follow
each other with nothing but white space between them, the rows of a text are those of its tokens
(`Tiles.solidRows_take`), whatever the white space is.

* `Part`: some tokens stand in one part of a text, as far as one can tell by counting.
* `Part.rows_eq`: the rows of such tokens are those of the part.
* `firstRow_of_solidRows`: which determines the row each of them starts on.
-/

namespace Stopwatch

open Text

/-- The rows of the bytes other than white space, for a text that starts on the row `r`. -/
def solidRows (r : Nat) : Text → List Nat
  | [] => []
  | b :: t =>
    if b = newline then solidRows (r + 1) t
    else if isBlank b then solidRows r t
    else r :: solidRows r t

theorem solidRows_append (r : Nat) (t u : Text) :
    solidRows r (t ++ u) = solidRows r t ++ solidRows (r + t.count newline) u := by
  induction t generalizing r with
  | nil => rfl
  | cons b t ih =>
    rw [List.cons_append, solidRows, solidRows]
    by_cases hb : b = newline
    · rw [if_pos hb, if_pos hb, ih, hb, List.count_cons_self, Nat.add_assoc, Nat.add_comm 1]
    · rw [if_neg hb, if_neg hb, List.count_cons_of_ne hb]
      split
      · exact ih r
      · rw [ih r, List.cons_append]

theorem length_solidRows (r : Nat) (t : Text) : (solidRows r t).length = (solid t).length := by
  induction t generalizing r with
  | nil => rfl
  | cons b t ih =>
    rw [solidRows, solid, List.filter_cons]
    by_cases hb : b = newline
    · rw [if_pos hb, hb, if_neg (by decide)]
      exact ih (r + 1)
    · rw [if_neg hb]
      cases isBlank b with
      | true => exact ih r
      | false => exact congrArg (· + 1) (ih r)

theorem solidRows_of_solid_nil {t : Text} (h : solid t = []) (r : Nat) : solidRows r t = [] :=
  List.eq_nil_of_length_eq_zero (by rw [length_solidRows, h]; rfl)

/-- A change of rows that moves those of a text together. -/
theorem map_solidRows {f : Nat → Nat} {t : Text} {r : Nat}
    (hf : ∀ j ≤ t.count newline, f (r + j) = f r + j) :
    (solidRows r t).map f = solidRows (f r) t := by
  induction t generalizing r with
  | nil => rfl
  | cons b t ih =>
    rw [solidRows, solidRows]
    by_cases hb : b = newline
    · rw [hb, List.count_cons_self] at hf
      have hnext : f (r + 1) = f r + 1 := hf 1 (by omega)
      rw [if_pos hb, if_pos hb, ← hnext]
      refine ih fun j hj => ?_
      rw [Nat.add_assoc, hf (1 + j) (by omega), hnext, Nat.add_assoc]
    · rw [List.count_cons_of_ne hb] at hf
      rw [if_neg hb, if_neg hb]
      split
      · exact ih hf
      · rw [List.map_cons, ih hf]

theorem map_add_solidRows (n r : Nat) (t : Text) :
    (solidRows r t).map (n + ·) = solidRows (n + r) t :=
  map_solidRows fun j _ => by omega

/-- The rows of a text determine the row it starts on. -/
theorem row_eq_of_solidRows_eq {t : Text} (hne : solid t ≠ []) {r r' : Nat}
    (h : solidRows r t = solidRows r' t) : r = r' := by
  rw [← Nat.add_zero r, ← map_add_solidRows, ← Nat.add_zero r', ← map_add_solidRows] at h
  cases hrows : solidRows 0 t with
  | nil =>
    have hlength := length_solidRows 0 t
    rw [hrows] at hlength
    exact absurd (List.eq_nil_of_length_eq_zero hlength.symm) hne
  | cons k ks =>
    rw [hrows, List.map_cons, List.map_cons] at h
    have hhead := (List.cons.inj h).1
    omega

/-! ## Trailing white space -/

/-- A text is what trimming leaves of it, and white space. -/
theorem exists_eq_trimEnd_append (t : Text) :
    ∃ w, (∀ b ∈ w, isBlank b = true) ∧ t = trimEnd t ++ w := by
  refine ⟨(t.reverse.takeWhile isBlank).reverse, fun b hb => ?_, ?_⟩
  · exact List.mem_takeWhile_imp (List.mem_reverse.mp hb)
  · rw [trimEnd, ← List.reverse_append, List.takeWhile_append_dropWhile, List.reverse_reverse]

theorem solidRows_trimEnd (r : Nat) (t : Text) : solidRows r (trimEnd t) = solidRows r t := by
  obtain ⟨w, hw, ht⟩ := exists_eq_trimEnd_append t
  conv_rhs => rw [ht, solidRows_append, solidRows_of_solid_nil (solid_eq_nil hw), List.append_nil]

/-! ## Lines -/

/-- The rows of the bytes other than white space, for lines of which the first one is the row `r`. -/
def lineRows (r : Nat) : List Text → List Nat
  | [] => []
  | l :: ls => List.replicate (solid l).length r ++ lineRows (r + 1) ls

theorem solidRows_eq_lineRows (r : Nat) (t : Text) : solidRows r t = lineRows r (splitLines t) := by
  induction t generalizing r with
  | nil => rfl
  | cons b t ih =>
    rw [solidRows]
    by_cases hb : b = newline
    · rw [if_pos hb, hb, splitLines_newline, lineRows, ih]
      rfl
    · obtain ⟨l, ls, hl⟩ := List.exists_cons_of_ne_nil (splitLines_ne_nil t)
      rw [if_neg hb, splitLines_cons hb hl, lineRows, ih, hl, lineRows, solid, solid, List.filter_cons]
      cases isBlank b with
      | true => rfl
      | false => rfl

/-- The rows of numbered lines: the line of `i` has the number `f i`. -/
theorem lineRows_map {α : Type} {f : α → Nat} {line : α → Text} {is : List α} {r : Nat}
    (h : is.map f = List.range' r is.length) :
    lineRows r (is.map line) = is.flatMap fun i => List.replicate (solid (line i)).length (f i) := by
  induction is generalizing r with
  | nil => rfl
  | cons i is ih =>
    rw [List.map_cons, List.length_cons, List.range'_succ] at h
    obtain ⟨hi, hrest⟩ := List.cons.inj h
    rw [List.map_cons, lineRows, List.flatMap_cons, ih hrest, hi]

theorem lineRows_congr {ls ms : List Text}
    (h : List.Forall₂ (fun l m => solid l = solid m) ls ms) (r : Nat) :
    lineRows r ls = lineRows r ms := by
  induction h generalizing r with
  | nil => rfl
  | cons hhead _ ih => rw [lineRows, lineRows, hhead, ih]

/-! ## Tokens side by side -/

/-- The bytes of a token. -/
def Leaf.word (text : Text) (l : Leaf) : Text := (text.take l.stop).drop l.start

/-- The number of bytes other than white space in some tokens. -/
def solidCount (text : Text) (ls : List Leaf) : Nat := (ls.map fun l => (solid (l.word text)).length).sum

theorem solidCount_append (text : Text) (ls ms : List Leaf) :
    solidCount text (ls ++ ms) = solidCount text ls + solidCount text ms := by
  rw [solidCount, List.map_append, List.sum_append]
  rfl

/-- The tokens stand one after another behind the offset `p`, with only white space in front of each. -/
inductive Tiles (text : Text) : Nat → List Leaf → Prop
  | nil (p : Nat) : Tiles text p []
  | cons {p : Nat} {l : Leaf} {ls : List Leaf} (hstart : p ≤ l.start)
      (hgap : solid ((text.take l.start).drop p) = []) (hstop : l.start ≤ l.stop)
      (hend : l.stop ≤ text.length) (h : Tiles text l.stop ls) : Tiles text p (l :: ls)

/-- The end of the last token, or `p` if there is none. -/
def reach (p : Nat) (ls : List Leaf) : Nat := ((ls.getLast?).map Leaf.stop).getD p

theorem reach_cons (p : Nat) (l : Leaf) (ls : List Leaf) : reach p (l :: ls) = reach l.stop ls := by
  cases ls with
  | nil => rfl
  | cons m ms => simp [reach, List.getLast?_eq_some_getLast]

theorem reach_append (p : Nat) (ls ms : List Leaf) : reach p (ls ++ ms) = reach (reach p ls) ms := by
  induction ls generalizing p with
  | nil => rfl
  | cons l ls ih => rw [List.cons_append, reach_cons, reach_cons, ih]

theorem take_eq_append_drop {α : Type} {t : List α} {p q : Nat} (h : p ≤ q) :
    t.take q = t.take p ++ (t.take q).drop p := by
  conv_lhs => rw [← List.take_append_drop p (t.take q), List.take_take, Nat.min_eq_left h]

/-- **The rows of a text are those of its tokens.** -/
theorem Tiles.solidRows_take {text : Text} {p : Nat} {ls : List Leaf} (h : Tiles text p ls) :
    solidRows 0 (text.take (reach p ls)) = solidRows 0 (text.take p) ++
      ls.flatMap fun l => solidRows (text.point l.start).row (l.word text) := by
  induction h with
  | nil p => exact (List.append_nil _).symm
  | @cons p l ls hstart hgap hstop _ _ ih =>
    have hword : solidRows 0 (text.take l.stop) =
        solidRows 0 (text.take p) ++ solidRows (text.point l.start).row (l.word text) := by
      rw [take_eq_append_drop hstop, solidRows_append, take_eq_append_drop hstart, solidRows_append,
        solidRows_of_solid_nil hgap, List.append_nil, ← take_eq_append_drop hstart, point_row,
        Nat.zero_add]
      rfl
    rw [reach_cons, ih, hword, List.flatMap_cons, List.append_assoc]

theorem Tiles.append {text : Text} {p : Nat} {ls ms : List Leaf} (h : Tiles text p (ls ++ ms)) :
    Tiles text p ls ∧ Tiles text (reach p ls) ms := by
  induction ls generalizing p with
  | nil => exact ⟨.nil p, h⟩
  | cons l ls ih =>
    cases h with
    | cons hstart hgap hstop hend h =>
      rw [reach_cons]
      exact ⟨.cons hstart hgap hstop hend (ih h).1, (ih h).2⟩

theorem length_flatMap_solidRows (text : Text) (ls : List Leaf) :
    (ls.flatMap fun l => solidRows (text.point l.start).row (l.word text)).length =
      solidCount text ls := by
  rw [List.length_flatMap, solidCount]
  simp only [length_solidRows]

theorem Tiles.length_solid_take {text : Text} {ls : List Leaf} (h : Tiles text 0 ls) :
    (solid (text.take (reach 0 ls))).length = solidCount text ls := by
  rw [← length_solidRows 0, h.solidRows_take, List.take_zero, List.length_append,
    length_flatMap_solidRows]
  exact Nat.zero_add _

/-! ## Tokens that leave nothing out -/

/-- Tokens in order, from an offset on. -/
theorem length_solid_drop_eq {text : Text} {p : Nat} {l : Leaf} (hstart : p ≤ l.start)
    (hstop : l.start ≤ l.stop) :
    (solid (text.drop p)).length = (solid ((text.take l.start).drop p)).length +
      (solid (l.word text)).length + (solid (text.drop l.stop)).length := by
  have hsplit : text.drop p =
      (text.take l.start).drop p ++ l.word text ++ text.drop l.stop := by
    have hmiddle : (text.take l.stop).drop p = (text.take l.start).drop p ++ l.word text := by
      rw [take_eq_append_drop hstop, List.drop_append, List.length_take]
      by_cases hlength : l.start ≤ text.length
      · rw [Nat.min_eq_left hlength, Nat.sub_eq_zero_of_le hstart]
        rfl
      · have hnil : l.word text = [] := List.drop_eq_nil_of_le (by rw [List.length_take]; omega)
        have hnil' : (text.take l.stop).drop l.start = [] := hnil
        rw [hnil, hnil', List.drop_nil]
    have hfront : text.drop p = (text.take l.stop).drop p ++ text.drop l.stop := by
      conv_lhs => rw [← List.take_append_drop l.stop text, List.drop_append]
      rw [List.length_take]
      by_cases hlength : l.stop ≤ text.length
      · rw [Nat.min_eq_left hlength, Nat.sub_eq_zero_of_le (hstart.trans hstop), List.drop_zero]
      · have hnil : text.drop l.stop = [] := List.drop_eq_nil_of_le (by omega)
        rw [hnil, List.drop_nil]
    rw [hfront, hmiddle]
  rw [hsplit, solid_append, solid_append, List.length_append, List.length_append]

theorem solidCount_le (text : Text) {p : Nat} {ls : List Leaf}
    (hordered : ls.Pairwise fun a b => a.stop ≤ b.start)
    (hbounds : ∀ l ∈ ls, p ≤ l.start ∧ l.start ≤ l.stop) :
    solidCount text ls ≤ (solid (text.drop p)).length := by
  induction ls generalizing p with
  | nil => exact Nat.zero_le _
  | cons l ls ih =>
    obtain ⟨hfirst, hrest⟩ := List.pairwise_cons.mp hordered
    obtain ⟨hstart, hstop⟩ := hbounds l List.mem_cons_self
    have hle := ih hrest fun m hm => ⟨hfirst m hm, (hbounds m (List.mem_cons_of_mem l hm)).2⟩
    rw [length_solid_drop_eq hstart hstop]
    rw [solidCount, List.map_cons, List.sum_cons, ← solidCount]
    omega

/-- **Tokens in order that have as many bytes as the text stand side by side**: there is nothing but white
space between them. -/
theorem tiles_of_solidCount {text : Text} {p : Nat} {ls : List Leaf}
    (hordered : ls.Pairwise fun a b => a.stop ≤ b.start)
    (hbounds : ∀ l ∈ ls, p ≤ l.start ∧ l.start ≤ l.stop ∧ l.stop ≤ text.length)
    (hcount : solidCount text ls = (solid (text.drop p)).length) : Tiles text p ls := by
  induction ls generalizing p with
  | nil => exact .nil p
  | cons l ls ih =>
    obtain ⟨hfirst, hrest⟩ := List.pairwise_cons.mp hordered
    obtain ⟨hstart, hstop, hend⟩ := hbounds l List.mem_cons_self
    have htail : ∀ m ∈ ls, l.stop ≤ m.start ∧ m.start ≤ m.stop ∧ m.stop ≤ text.length :=
      fun m hm => ⟨hfirst m hm, (hbounds m (List.mem_cons_of_mem l hm)).2⟩
    have hle := solidCount_le text hrest fun m hm => ⟨(htail m hm).1, (htail m hm).2.1⟩
    rw [length_solid_drop_eq hstart hstop, solidCount, List.map_cons, List.sum_cons,
      ← solidCount] at hcount
    refine .cons hstart (List.eq_nil_of_length_eq_zero ?_) hstop hend (ih hrest htail ?_)
    · omega
    · omega

/-! ## Parts of a text -/

/-- The tokens `ls` stand in the part `here` of a text, behind the part `before`: the tokens in front of
them have as many bytes other than white space as `before`, and they have as many as `here`. -/
structure Part (text before here after : Text) (front ls : List Leaf) : Prop where
  /-- The text may be cut off somewhere in what follows. -/
  whole : text <+: before ++ here ++ after
  tiles : Tiles text 0 (front ++ ls)
  countBefore : solidCount text front = (solid before).length
  countHere : solidCount text ls = (solid here).length

namespace Part

variable {text before here after : Text} {front ls : List Leaf}

/-- **The rows of tokens are those of the part they stand in.** -/
theorem rows_eq (h : Part text before here after front ls) :
    (ls.flatMap fun l => solidRows (text.point l.start).row (l.word text)) =
      solidRows (before.count newline) here := by
  have hrows := h.tiles.solidRows_take
  rw [List.take_zero, solidRows, List.nil_append, List.flatMap_append] at hrows
  obtain ⟨rest, hrest⟩ := (List.take_prefix _ _).trans h.whole
  have hwhole := congrArg (solidRows 0) hrest
  rw [solidRows_append, hrows, solidRows_append, solidRows_append, List.append_assoc,
    List.append_assoc] at hwhole
  have hsplit := List.append_inj hwhole
    (by rw [length_flatMap_solidRows, h.countBefore, length_solidRows])
  have hhere := List.append_inj hsplit.2
    (by rw [length_flatMap_solidRows, h.countHere, length_solidRows])
  rw [hhere.1, Nat.zero_add]

theorem length_solid_take_start {first : Leaf} (h : Part text before here after front ls)
    (hfirst : ls.head? = some first) :
    (solid (text.take first.start)).length = (solid before).length := by
  obtain ⟨rest, rfl⟩ := List.head?_eq_some_iff.mp hfirst
  obtain ⟨hfront, hrest⟩ := h.tiles.append
  cases hrest with
  | cons hstart hgap _ _ _ =>
    rw [take_eq_append_drop hstart, solid_append, hgap, List.append_nil, hfront.length_solid_take,
      h.countBefore]

theorem length_solid_take_stop {last : Leaf} (h : Part text before here after front ls)
    (hlast : ls.getLast? = some last) :
    (solid (text.take last.stop)).length = (solid before).length + (solid here).length := by
  have hreach : reach 0 (front ++ ls) = last.stop := by
    rw [reach_append, reach, hlast]
    rfl
  rw [← hreach, h.tiles.length_solid_take, solidCount_append, h.countBefore, h.countHere]

/-- Some of the tokens stand in the front of the part, the others in the rest of it. -/
theorem split {here₁ here₂ : Text} {ls₁ ls₂ : List Leaf}
    (h : Part text before (here₁ ++ here₂) after front (ls₁ ++ ls₂))
    (hcount : solidCount text ls₁ = (solid here₁).length) :
    Part text before here₁ (here₂ ++ after) front ls₁ ∧
      Part text (before ++ here₁) here₂ after (front ++ ls₁) ls₂ := by
  have htext : text <+: before ++ here₁ ++ (here₂ ++ after) := by simpa using h.whole
  have hhere := h.countHere
  rw [solidCount_append, solid_append, List.length_append, hcount] at hhere
  refine ⟨⟨htext, ?_, h.countBefore, hcount⟩, ⟨?_, ?_, ?_, by omega⟩⟩
  · have htiles := h.tiles
    rw [← List.append_assoc] at htiles
    exact htiles.append.1
  · simpa using htext
  · rw [List.append_assoc]
    exact h.tiles
  · rw [solidCount_append, solid_append, List.length_append, h.countBefore, hcount]

/-- White space in front of the tokens may be counted among what stands before. -/
theorem skip {gap rest : Text} (h : Part text before (gap ++ rest) after front ls)
    (hgap : solid gap = []) : Part text (before ++ gap) rest after front ls := by
  have hnone : Part text before (gap ++ rest) after front ([] ++ ls) := h
  have hsplit := (hnone.split (by rw [hgap]; rfl)).2
  rwa [List.append_nil] at hsplit

end Part

/-- Two lists of tokens on the same rows start on the same rows, as far as they have something to show. -/
theorem firstRow_of_solidRows {α : Type} {text : Text} {row : α → Nat} {word : α → Text} {as : List α}
    {ls : List Leaf}
    (hwords : List.Forall₂ (fun a l => ∀ r, solidRows r (word a) = solidRows r (l.word text)) as ls)
    (h : (ls.flatMap fun l => solidRows (text.point l.start).row (l.word text)) =
      as.flatMap fun a => solidRows (row a) (word a)) :
    List.Forall₂ (fun a l => solid (l.word text) ≠ [] → (text.point l.start).row = row a) as ls := by
  induction hwords with
  | nil => exact .nil
  | @cons a l as ls hword _ ih =>
    rw [List.flatMap_cons, List.flatMap_cons, hword] at h
    obtain ⟨hhead, htail⟩ := List.append_inj h (by rw [length_solidRows, length_solidRows])
    exact .cons (fun hne => row_eq_of_solidRows_eq hne hhead) (ih htail)

end Stopwatch
