import Mathlib
import Stopwatch.Proofs.MovedRows

/-!
# White space that the layout does not see

Two sources may have the same tokens on the same rows and differ in the white space around the rows, in the
number of blank rows between two others, and in what stands in front of all tokens or behind them. Each of
these is a stretch of text that no token reaches into. Changing one stretch after the other leads from the
one source to the other (`Respacing`), and their fragments are equal (`Fragment.ofNodes_eq_of_respaced`).

* `Respacing`: two sources that are one stretch apart.
* `fragment_eq_of_respacing`: one stretch; the theorem follows by induction over the stretches.
-/

namespace Stopwatch

open Text Layout

/-- A token of a text with a stretch from `k` to `n`, and the same token where the stretch ends at `n'`. -/
inductive Leaf.Beside (k n n' : Nat) : Leaf → Leaf → Prop
  | front (l : Leaf) (hstart : l.start ≤ k) (hstop : l.stop ≤ k) : Beside k n n' l l
  | behind (l : Leaf) : Beside k n n' (l.shift n) (l.shift n')

/-- White space that goes on to another row. -/
structure Text.IsBreak (g : Text) : Prop where
  blank : ∀ b ∈ g, isBlank b = true
  newline_mem : newline ∈ g

/-- Two sources with their tokens, one stretch of text apart. -/
inductive Respacing : Text × List Leaf → Text × List Leaf → Prop
  /-- Other text in front of all tokens. -/
  | front (p p' t : Text) (ls : List Leaf) :
      Respacing (p ++ t, ls.map (Leaf.shift p.length)) (p' ++ t, ls.map (Leaf.shift p'.length))
  /-- Other text behind all tokens. -/
  | back (t q q' : Text) (ls : List Leaf) (hls : ∀ l ∈ ls, l.start ≤ t.length ∧ l.stop ≤ t.length) :
      Respacing (t ++ q, ls) (t ++ q', ls)
  /-- Other white space at the end of a row, at the start of the next one that is not blank, or both. Between
  them are blank rows in both sources, as many as there may be, or in none. -/
  | between (t g g' u : Text) (ls ls' : List Leaf) (hg : g.IsBreak) (hg' : g'.IsBreak)
      (hrows : g.count newline = 1 ↔ g'.count newline = 1)
      (hls : List.Forall₂ (Leaf.Beside t.length (t ++ g).length (t ++ g').length) ls ls') :
      Respacing (t ++ g ++ u, ls) (t ++ g' ++ u, ls')

/-! ## One stretch -/

section Stretch

variable {t u : Text}

/-- The first row of white space that goes on to another row. -/
theorem Text.IsBreak.blank_row {g : Text} (h : g.IsBreak) (u : Text) :
    ∀ b ∈ (splitLines (g ++ u)).getD 0 [], isBlank b = true := by
  obtain ⟨p, q, rfl, hp⟩ := List.eq_append_cons_of_mem h.newline_mem
  intro b hb
  rw [List.append_assoc, List.cons_append, splitLines_append_newline hp] at hb
  exact h.blank b (List.mem_append_left _ hb)

/-- White space that goes on to another row ends below the row on which it begins. -/
theorem row_break (t g : Text) :
    (point (t ++ g) (t ++ g).length).row = (point t t.length).row + g.count newline := by
  rw [point_row, point_row, List.take_length, List.take_length, List.count_append]

theorem blankBehind_break {g : Text} (hg : g.IsBreak) (t u : Text) :
    BlankBehind (point t t.length) (splitLines (t ++ g ++ u)) := by
  rw [BlankBehind, List.append_assoc, (rows_append_right t (g ++ u)).1]
  exact hg.blank_row u

theorem moved_of_beside {g g' : Text} {l l' : Leaf}
    (hl : Leaf.Beside t.length (t ++ g).length (t ++ g').length l l') (hg : newline ∈ g)
    (hg' : newline ∈ g') :
    Moved (point t t.length) (point (t ++ g) (t ++ g).length) (point (t ++ g') (t ++ g').length)
      (l.place (Source.ofText (t ++ g ++ u))) (l'.place (Source.ofText (t ++ g' ++ u))) := by
  cases hl with
  | front _ hstart hstop =>
    obtain ⟨hplace, hfirst, hlast⟩ := Leaf.place_front hstart hstop (g ++ u)
    obtain ⟨hplace', -⟩ := Leaf.place_front hstart hstop (g' ++ u)
    have hq := row_break t g
    have hq' := row_break t g'
    have hpos := List.count_pos_iff.mpr hg
    have hpos' := List.count_pos_iff.mpr hg'
    rw [List.append_assoc, List.append_assoc, hplace, hplace']
    exact .stays _ hfirst hlast (by omega) (by omega)
  | behind l =>
    rw [Leaf.place_shift, Leaf.place_shift]
    exact .moves _

theorem fragment_eq_of_front (p p' t : Text) {ls : List Leaf} (hne : ls ≠ []) :
    Leaf.fragment (p ++ t) (ls.map (Leaf.shift p.length)) =
      Leaf.fragment (p' ++ t) (ls.map (Leaf.shift p'.length)) := by
  have hmoved : List.Forall₂ (Moved (point p p.length) (point p p.length) (point p' p'.length))
      ((ls.map (Leaf.shift p.length)).map (Leaf.place (Source.ofText (p ++ t))))
      ((ls.map (Leaf.shift p'.length)).map (Leaf.place (Source.ofText (p' ++ t)))) := by
    rw [List.map_map, List.map_map, List.forall₂_map_left_iff, List.forall₂_map_right_iff,
      List.forall₂_same]
    intro l _
    rw [Function.comp_apply, Function.comp_apply, Leaf.place_shift, Leaf.place_shift]
    exact .moves _
  have hplaced : (ls.map (Leaf.shift p.length)).map (Leaf.place (Source.ofText (p ++ t))) ≠ [] := by
    simpa using hne
  obtain ⟨l, l', hfirst, hl, -⟩ := exists_start hmoved hplaced
  refine ofPlaced_behind hmoved hplaced (sameBehind_append p p' t) ?_
  rw [hl]
  cases hfirst with
  | stays _ _ _ hq => exact absurd hq (Nat.lt_irrefl _)
  | moves l => exact Nat.le_add_right _ _

theorem fragment_eq_of_back (t q q' : Text) {ls : List Leaf} (hne : ls ≠ [])
    (hls : ∀ l ∈ ls, l.start ≤ t.length ∧ l.stop ≤ t.length) :
    Leaf.fragment (t ++ q) ls = Leaf.fragment (t ++ q') ls := by
  have hplaces : ∀ u,
      ls.map (Leaf.place (Source.ofText (t ++ u))) = ls.map (Leaf.place (Source.ofText t)) :=
    fun u => List.map_congr_left fun l hl => (Leaf.place_front (hls l hl).1 (hls l hl).2 u).1
  have hbelow : (point t t.length).row < (point t t.length).row + 1 := Nat.lt_succ_self _
  have hmoved : List.Forall₂
      (Moved (point t t.length) ⟨(point t t.length).row + 1, 0⟩ ⟨(point t t.length).row + 1, 0⟩)
      (ls.map (Leaf.place (Source.ofText t))) (ls.map (Leaf.place (Source.ofText t))) := by
    rw [List.forall₂_same]
    intro m hm
    obtain ⟨l, hl, rfl⟩ := List.mem_map.mp hm
    obtain ⟨-, hfirst, hlast⟩ := Leaf.place_front (hls l hl).1 (hls l hl).2 []
    exact .stays _ hfirst hlast hbelow hbelow
  have hplaced : ls.map (Leaf.place (Source.ofText t)) ≠ [] := by simpa using hne
  rw [Leaf.fragment, Leaf.fragment, hplaces, hplaces]
  refine ofPlaced_front hmoved hplaced hbelow hbelow (sameFront_append t q q') ?_
  have hlast : ls.getLast? = some (ls.getLast hne) := List.getLast?_eq_some_getLast hne
  have hmem := hls _ (List.getLast_mem hne)
  rw [stopPoint, List.getLast?_map, hlast]
  exact (Leaf.place_front hmem.1 hmem.2 []).2.2.row_le

theorem fragment_eq_of_between {t g g' u : Text} {ls ls' : List Leaf} (hne : ls ≠ []) (hg : g.IsBreak)
    (hg' : g'.IsBreak) (hrows : g.count newline = 1 ↔ g'.count newline = 1)
    (hls : List.Forall₂ (Leaf.Beside t.length (t ++ g).length (t ++ g').length) ls ls') :
    Leaf.fragment (t ++ g ++ u) ls = Leaf.fragment (t ++ g' ++ u) ls' := by
  have hmoved : List.Forall₂
      (Moved (point t t.length) (point (t ++ g) (t ++ g).length) (point (t ++ g') (t ++ g').length))
      (ls.map (Leaf.place (Source.ofText (t ++ g ++ u))))
      (ls'.map (Leaf.place (Source.ofText (t ++ g' ++ u)))) := by
    rw [List.forall₂_map_left_iff, List.forall₂_map_right_iff]
    exact hls.imp fun l l' hl => moved_of_beside hl hg.newline_mem hg'.newline_mem
  have hplaced : ls.map (Leaf.place (Source.ofText (t ++ g ++ u))) ≠ [] := by simpa using hne
  have hrow := row_break t g
  have hrow' := row_break t g'
  have hpos := List.count_pos_iff.mpr hg.newline_mem
  have hpos' := List.count_pos_iff.mpr hg'.newline_mem
  have hfront : SameFront (point t t.length) (splitLines (t ++ g ++ u)) (splitLines (t ++ g' ++ u)) := by
    rw [List.append_assoc, List.append_assoc]
    exact sameFront_append t (g ++ u) (g' ++ u)
  have hbehind := sameBehind_append (t ++ g) (t ++ g') u
  rw [Leaf.fragment, Leaf.fragment]
  generalize ls.map (Leaf.place (Source.ofText (t ++ g ++ u))) = ms at hmoved hplaced ⊢
  generalize ls'.map (Leaf.place (Source.ofText (t ++ g' ++ u))) = ms' at hmoved ⊢
  by_cases hstop : (stopPoint ms).row ≤ (point t t.length).row
  · exact ofPlaced_front hmoved hplaced (by omega) (by omega) hfront hstop
  · by_cases hstart : (point (t ++ g) (t ++ g).length).row ≤ startRow ms
    · exact ofPlaced_behind hmoved hplaced hbehind hstart
    · exact ofPlaced_over hmoved hplaced (by omega) (by omega) (by omega) hfront
        ⟨blankBehind_break hg t u, blankBehind_break hg' t u⟩ hbehind (by omega) (by omega)

/-- **One stretch of text** makes no difference. -/
theorem fragment_eq_of_respacing {x y : Text × List Leaf} (h : Respacing x y) :
    Leaf.fragment x.1 x.2 = Leaf.fragment y.1 y.2 := by
  by_cases hne : x.2 = []
  · have hne' : y.2 = [] := by
      cases h with
      | front => simpa using hne
      | back => exact hne
      | between t g g' u ls ls' hg hg' hrows hls =>
        obtain rfl : ls = [] := hne
        exact List.forall₂_nil_left_iff.mp hls
    rw [hne, hne']
    rfl
  · cases h with
    | front p p' t ls => exact fragment_eq_of_front p p' t (by simpa using hne)
    | back t q q' ls hls => exact fragment_eq_of_back t q q' hne hls
    | between t g g' u ls ls' hg hg' hrows hls => exact fragment_eq_of_between hne hg hg' hrows hls

end Stretch

/-- **White space does not enter a fragment.** Take two sources and the tokens of some nodes in each, any
number of stretches apart: other text in front of all the tokens or behind them, other white space at the
ends of rows and at their starts, and more or fewer blank rows where there are some. Then the nodes have the
same fragment, with the same depths, texts and verbatim lines. -/
theorem Fragment.ofNodes_eq_of_respaced {text text' : Text} {parent parent' : String}
    {nodes nodes' : List Cst}
    (h : Relation.ReflTransGen Respacing (text, Cst.leavesAll parent nodes)
      (text', Cst.leavesAll parent' nodes')) :
    ofNodes (Source.ofText text) parent nodes = ofNodes (Source.ofText text') parent' nodes' := by
  have hrun : ∀ {x y : Text × List Leaf}, Relation.ReflTransGen Respacing x y →
      Leaf.fragment x.1 x.2 = Leaf.fragment y.1 y.2 := by
    intro x y hxy
    induction hxy with
    | refl => rfl
    | tail _ hstep ih => exact ih.trans (fragment_eq_of_respacing hstep)
  exact hrun h

/-- A call with white space around its rows, and with two blank rows in it. -/
def airyCall : Text := utf8 "  f(  \n\n\n   a)\n x"

def airyTokens : List Cst :=
  [Sample.token "identifier" 2 3, Sample.token "(" 3 4, Sample.token "identifier" 12 13,
    Sample.token ")" 13 14]

/-- The same call with one blank row, and without the text around it. -/
def denseCall : Text := utf8 "f(\n\n\ta)"

def denseTokens : List Cst :=
  [Sample.token "identifier" 0 1, Sample.token "(" 1 2, Sample.token "identifier" 5 6,
    Sample.token ")" 6 7]

theorem Fragment.ofNodes_eq_of_respaced_calls :
    Relation.ReflTransGen Respacing (airyCall, Cst.leavesAll "call" airyTokens)
        (denseCall, Cst.leavesAll "call" denseTokens) ∧
      ofNodes (Source.ofText airyCall) "call" airyTokens =
        ofNodes (Source.ofText denseCall) "call" denseTokens := by
  let front : List Leaf := [⟨"identifier", "call", 0, 1⟩, ⟨"(", "call", 1, 2⟩]
  let behind : List Leaf := [⟨"identifier", "call", 0, 1⟩, ⟨")", "call", 1, 2⟩]
  have hfront : Respacing (airyCall, Cst.leavesAll "call" airyTokens)
      (utf8 "f(  \n\n\n   a)\n x", front ++ behind.map (Leaf.shift 10)) :=
    .front (utf8 "  ") [] (utf8 "f(  \n\n\n   a)\n x") (front ++ behind.map (Leaf.shift 10))
  have hbetween : Respacing (utf8 "f(  \n\n\n   a)\n x", front ++ behind.map (Leaf.shift 10))
      (utf8 "f(\n\n\ta)\n x", front ++ behind.map (Leaf.shift 5)) :=
    .between (utf8 "f(") (utf8 "  \n\n\n   ") (utf8 "\n\n\t") (utf8 "a)\n x") _ _
      ⟨by decide +kernel, by decide⟩ ⟨by decide +kernel, by decide⟩ (by decide)
      (.cons (.front _ (by decide) (by decide)) <| .cons (.front _ (by decide) (by decide)) <|
        .cons (.behind _) <| .cons (.behind _) .nil)
  have hback : Respacing (utf8 "f(\n\n\ta)\n x", front ++ behind.map (Leaf.shift 5))
      (denseCall, Cst.leavesAll "call" denseTokens) :=
    .back denseCall (utf8 "\n x") [] _ (by decide)
  have hrespaced := Relation.ReflTransGen.tail (.tail (.single hfront) hbetween) hback
  exact ⟨hrespaced, ofNodes_eq_of_respaced hrespaced⟩

end Stopwatch
