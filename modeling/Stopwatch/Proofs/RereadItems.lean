import Mathlib
import Stopwatch.Proofs.Characters
import Stopwatch.Proofs.Rereading

/-!
# Reading printed lists of items again

A list of items is printed one below the other, with an empty line where the source had one, and a comment
behind an item on its last line. Read again, each item starts where it was printed, so the same comments are
behind items and the same empty lines between them.

* `Spelled`: a text that is written out as tokens, with padding between them.
* `Rereads`: an item, printed by itself and read again, is printed the same.
* `BlockReads`, `ReadsAll`: the same for an item with the comment behind it, and for a list of them.
* `ReadsAll.again`: what is read from a printed list is printed as the list was.
-/

namespace Stopwatch

open Text Layout

/-! ## The text of strokes -/

namespace Stroke

/-- The text of strokes that follow no others. -/
def text (indent : Text) (strokes : List Stroke) : Text := joinLines (lines indent strokes)

theorem lines_ne_nil {strokes : List Stroke} (h : Opens strokes) (hne : strokes ≠ []) (indent : Text) :
    lines indent strokes ≠ [] := (h.runFrom_eq indent []).2 hne

theorem text_append {a b : List Stroke} (ha : Opens a) (hb : Opens b) (hane : a ≠ []) (hbne : b ≠ [])
    (indent : Text) : text indent (a ++ b) = text indent a ++ newline :: text indent b := by
  rw [text, lines_append ha hb, joinLines_append (lines_ne_nil ha hane indent) (lines_ne_nil hb hbne indent)]
  rfl

theorem text_extend {a : List Stroke} (ha : Opens a) (hane : a ≠ []) (indent t : Text) :
    text indent (a ++ [.extend t]) = text indent a ++ t := by
  obtain ⟨init, last, hlast⟩ := (List.eq_nil_or_concat _).resolve_left (lines_ne_nil ha hane indent)
  rw [List.concat_eq_append] at hlast
  rw [text, text, lines_extend ha hlast, hlast, joinLines_concat_append]

theorem text_fragment (indent : Text) (depth : Int) (f : Fragment) :
    text indent (Print.fragment depth f) = joinLines (f.printed indent depth) := by
  rw [text, Print.lines_fragment]

theorem text_line (indent : Text) (depth : Int) {t : Text} (ht : t ≠ []) :
    text indent [.line depth t] = indent.repeated depth ++ t := by
  have hlines : lines indent [.line depth t] = [indented indent depth t] := rfl
  rw [text, hlines, indented, if_neg ht]
  rfl

theorem padding_repeated {indent : Text} (hindent : ∀ b ∈ indent, isBlank b = true)
    (hclean : newline ∉ indent) (depth : Int) : Padding (indent.repeated depth) :=
  ⟨fun b hb => hindent b (mem_of_mem_repeated hb), fun hb => hclean (mem_of_mem_repeated hb)⟩

end Stroke

/-! ## Tokens that spell a text -/

/-- The text `t` is the tokens `ls` of `text` one after another, with padding in front of each. -/
inductive Spelled (text : Text) : Text → List Leaf → Prop
  | nil : Spelled text [] []
  | cons {g t : Text} {l : Leaf} {ls : List Leaf} (hg : Padding g) (h : Spelled text t ls) :
      Spelled text (g ++ l.word text ++ t) (l :: ls)

namespace Spelled

variable {text t u g : Text} {ls ms : List Leaf}

theorem append (h : Spelled text t ls) (h' : Spelled text u ms) : Spelled text (t ++ u) (ls ++ ms) := by
  induction h with
  | nil => exact h'
  | cons hg _ ih =>
    rw [List.append_assoc]
    exact .cons hg ih

theorem words (text : Text) (ls : List Leaf) : Spelled text (ls.flatMap (Leaf.word text)) ls := by
  induction ls with
  | nil => exact .nil
  | cons l ls ih => exact .cons padding_nil ih

theorem pad (hg : Padding g) (h : Spelled text t ls) (hne : ls ≠ []) : Spelled text (g ++ t) ls := by
  cases h with
  | nil => exact absurd rfl hne
  | @cons g' t l ls hg' h =>
    have hboth : Padding (g ++ g') :=
      ⟨fun b hb => (List.mem_append.mp hb).elim (hg.1 b) (hg'.1 b),
        fun hb => (List.mem_append.mp hb).elim hg.2 hg'.2⟩
    rw [← List.append_assoc, ← List.append_assoc]
    exact .cons hboth h

theorem token (text : Text) (l : Leaf) : Spelled text (l.word text) [l] := by
  have h := words text [l]
  rwa [List.flatMap_singleton] at h

theorem solidCount_eq (h : Spelled text t ls) : solidCount text ls = (solid t).length := by
  induction h with
  | nil => rfl
  | cons hg _ ih =>
    rw [solid_append, solid_append, solid_eq_nil hg.1, List.nil_append, List.length_append, ← ih]
    rfl

theorem count_newline_eq (h : Spelled text t ls) :
    t.count newline = (ls.map fun l => (l.word text).count newline).sum := by
  induction h with
  | nil => rfl
  | cons hg _ ih =>
    rw [List.count_append, List.count_append, List.count_eq_zero.mpr hg.2, Nat.zero_add, ih]
    rfl

/-- The tokens with the rows they start on, if the first one starts on the row `r`. -/
def placed (text : Text) : Nat → List Leaf → List (Leaf × Nat)
  | _, [] => []
  | r, l :: ls => (l, r) :: placed text (r + (l.word text).count newline) ls

theorem solidRows_eq (h : Spelled text t ls) (r : Nat) :
    solidRows r t = (placed text r ls).flatMap fun x => solidRows x.2 (x.1.word text) := by
  induction h generalizing r with
  | nil => rfl
  | @cons g t l ls hg _ ih =>
    rw [solidRows_append, solidRows_append, solidRows_of_solid_nil (solid_eq_nil hg.1), List.nil_append,
      List.count_append, List.count_eq_zero.mpr hg.2, Nat.zero_add, Nat.add_zero, ih]
    rfl

theorem forall₂_placed (text : Text) (r : Nat) (ls : List Leaf) :
    List.Forall₂ (fun x l => ∀ r, solidRows r (Leaf.word text x.1) = solidRows r (l.word text))
      (placed text r ls) ls := by
  induction ls generalizing r with
  | nil => exact .nil
  | cons l ls ih => exact .cons (fun _ => rfl) (ih _)

/-- Tokens of white space follow the others, so the last one ends where the text does. -/
theorem row_getLast {p last : Leaf} {r : Nat} (hbounds : ∀ l ∈ ls, l.start ≤ l.stop)
    (hchain : (p :: ls).IsChain fun a b =>
      solid (b.word text) = [] → (text.point b.start).row = (text.point a.stop).row)
    (hrows : List.Forall₂ (fun x l => solid (l.word text) ≠ [] → (text.point l.start).row = x.2)
      (placed text r ls) ls) (hp : (text.point p.stop).row = r) (hlast : (p :: ls).getLast? = some last) :
    (text.point last.stop).row = r + (ls.map fun l => (l.word text).count newline).sum := by
  induction ls generalizing p r with
  | nil =>
    obtain rfl := Option.some.inj hlast
    exact hp
  | cons l ls ih =>
    obtain ⟨hl, hchain⟩ := List.isChain_cons_cons.mp hchain
    cases hrows with
    | cons hrow hrows =>
      have hstart : (text.point l.start).row = r := by
        by_cases hblank : solid (l.word text) = []
        · rw [hl hblank, hp]
        · exact hrow hblank
      have hstop := Leaf.row_stop text (hbounds l List.mem_cons_self)
      rw [hstart] at hstop
      rw [ih (fun k hk => hbounds k (List.mem_cons_of_mem l hk)) hchain hrows hstop
        (by simpa using hlast), List.map_cons, List.sum_cons, Nat.add_assoc]

/-- **Where tokens stand that spell a part of a text.** -/
theorem rows {before after : Text} {front : List Leaf} {first last : Leaf} (h : Spelled text t ls)
    (hpart : Part text before t after front ls) (hlaid : Leaf.Laid (Source.ofText text) ls)
    (hfirst : ls.head? = some first) (hlast : ls.getLast? = some last) :
    (text.point first.start).row = before.count newline ∧
      (text.point last.stop).row = before.count newline + t.count newline := by
  have hrows := firstRow_of_solidRows (forall₂_placed text (before.count newline) ls)
    (hpart.rows_eq.trans (h.solidRows_eq _))
  obtain ⟨rest, rfl⟩ := List.head?_eq_some_iff.mp hfirst
  have hbound := hlaid.bounds first List.mem_cons_self
  cases hrows with
  | cons hrow hrows =>
    have hstart := hrow (Leaf.solid_word_ne_nil (hlaid.head first rfl) hbound.1)
    have hstop := Leaf.row_stop text hbound.1.le
    rw [hstart] at hstop
    refine ⟨hstart, ?_⟩
    rw [row_getLast (fun l hl => (hlaid.bounds l (List.mem_cons_of_mem first hl)).1.le)
      hlaid.row_of_blank hrows hstop hlast, h.count_newline_eq, List.map_cons, List.sum_cons, Nat.add_assoc]

end Spelled

/-! ## Where items stand -/

/-- The node of an item reaches from its first token to its last one, which does not end with a line
feed. -/
structure Item.Spans (text : Text) (i : Item) : Prop where
  start : ∀ l, i.leaves.head? = some l → i.node.start = l.start
  stop : ∀ l, i.leaves.getLast? = some l →
    i.node.stop = l.stop ∧ (l.word text).getLast? ≠ some newline

theorem Leaf.col_stop_ne_zero {text : Text} {l : Leaf} (hlt : l.start < l.stop)
    (hend : l.stop ≤ text.length) (hlast : (l.word text).getLast? ≠ some newline) :
    (text.point l.stop).col ≠ 0 := by
  have hword : l.word text ≠ [] := by
    refine List.ne_nil_of_length_pos ?_
    rw [Leaf.word, List.length_drop, List.length_take]
    omega
  have htake : (text.take l.stop).getLast? = (l.word text).getLast? := by
    rw [take_eq_append_drop hlt.le]
    exact List.getLast?_append_of_ne_nil _ hword
  obtain ⟨init, b, hb⟩ := (List.eq_nil_or_concat (text.take l.stop)).resolve_left (by
    refine List.ne_nil_of_length_pos ?_
    rw [List.length_take]
    omega)
  rw [List.concat_eq_append] at hb
  have hne : b ≠ newline := by
    rintro rfl
    refine hlast ?_
    rw [← htake, hb, List.getLast?_concat]
  rw [point_col, hb, List.reverse_append, List.reverse_singleton, List.singleton_append,
    List.takeWhile_cons_of_pos (by simpa using hne)]
  simp

namespace Item.Spans

variable {text : Text} {i : Item} {l : Leaf}

theorem startRow_eq (h : i.Spans text) (hl : i.leaves.head? = some l) :
    i.node.startRow (Source.ofText text) = (text.point l.start).row := by
  rw [Cst.startRow, h.start l hl, Source.point_ofText]

theorem endRow_eq (h : i.Spans text) (hl : i.leaves.getLast? = some l) (hlt : l.start < l.stop)
    (hend : l.stop ≤ text.length) :
    i.node.endRow (Source.ofText text) = (text.point l.stop).row := by
  obtain ⟨hstop, hlast⟩ := h.stop l hl
  have hcol := Leaf.col_stop_ne_zero hlt hend hlast
  simp only [Cst.endRow, hstop, Source.point_ofText]
  rw [if_neg fun hzero => hcol hzero.1]

end Item.Spans

/-! ## Items read from a printed text -/

/-- A text and the one it is printed as, with the way in which the items of one list are read and
printed. -/
structure Reading where
  text : Text
  printed : Text
  indent : Text
  convert : Source → Item → Node
  print : Node → List Stroke

namespace Reading

variable (x : Reading)

/-- The node of an item of the text. -/
def old (i : Item) : Node := Load.itemNode (Source.ofText x.text) (x.convert (Source.ofText x.text)) i

/-- The node of an item of the printed text. -/
def new (i : Item) : Node :=
  Load.itemNode (Source.ofText x.printed) (x.convert (Source.ofText x.printed)) i

/-- The node of an item of the text with the comment behind it. -/
def oldBlock (b : Item × Option Item) : Node :=
  Load.blockNode (Source.ofText x.text) (x.convert (Source.ofText x.text)) b

/-- The node of an item of the printed text with the comment behind it. -/
def newBlock (b : Item × Option Item) : Node :=
  Load.blockNode (Source.ofText x.printed) (x.convert (Source.ofText x.printed)) b

/-- The text that an item is printed as. -/
def itemText (i : Item) : Text := Stroke.text x.indent (x.print (x.old i))

/-- The text that an item is printed as, with the comment behind it. -/
def blockText (b : Item × Option Item) : Text := Stroke.text x.indent (x.print (x.oldBlock b))

/-- Nodes are marked with the rows they were read from, and the comment behind a node is printed behind
it. -/
structure Faithful : Prop where
  mark : ∀ source i, (Load.itemNode source (x.convert source) i).mark = Load.markOf source i.node
  trailing : ∀ source i t, x.print ((Load.itemNode source (x.convert source) i).withTrailing t) =
    x.print (Load.itemNode source (x.convert source) i) ++ Print.trailing { trailing := some t }

/-- The item `i'` of the printed text is read as the item `i`: where the tokens `ls` stand in what `i` is
printed as, `i'` covers its rows and is printed the same. -/
structure Rereads (i i' : Item) (ls : List Leaf) : Prop where
  opens : Stroke.Opens (x.print (x.old i))
  ne_nil : x.print (x.old i) ≠ []
  count : solidCount x.printed ls = (solid (x.itemText i)).length
  again : ∀ {before after : Text} {front : List Leaf},
    Part x.printed before (x.itemText i) after front ls →
      i'.node.startRow (Source.ofText x.printed) = before.count newline ∧
      i'.node.endRow (Source.ofText x.printed) =
        before.count newline + (x.itemText i).count newline ∧
      x.print (x.new i') = x.print (x.old i)

/-- The item `c'` of the printed text is read as the comment `c` behind an item: it stands on one row and is
the comment as it is printed, up to white space at the end. -/
structure CommentReads (c c' : Item) : Prop where
  kind : c'.node.kind = "comment"
  laid : Leaf.Laid (Source.ofText x.printed) c'.leaves
  visible : c'.leaves ≠ []
  spans : c'.Spans x.printed
  word : trimEnd (c'.node.text (Source.ofText x.printed)) =
    (c.node.text (Source.ofText x.text)).trimEndWide
  clean : newline ∉ c'.node.text (Source.ofText x.printed)

/-- `Rereads` for an item with the comment behind it. -/
structure BlockReads (b b' : Item × Option Item) (ls : List Leaf) : Prop where
  opens : Stroke.Opens (x.print (x.oldBlock b))
  ne_nil : x.print (x.oldBlock b) ≠ []
  count : solidCount x.printed ls = (Stopwatch.solid (x.blockText b)).length
  again : ∀ {before after : Text} {front : List Leaf},
    Part x.printed before (x.blockText b) after front ls →
      b'.1.node.startRow (Source.ofText x.printed) = before.count newline ∧
      b'.1.node.endRow (Source.ofText x.printed) =
        before.count newline + (x.blockText b).count newline ∧
      x.print (x.newBlock b') = x.print (x.oldBlock b) ∧
      ∀ c, b'.2 = some c → Load.follows (Source.ofText x.printed) b'.1 c = true

variable {x} {i i' c c' : Item} {ls : List Leaf}

/-- An item without a comment behind it. -/
theorem Rereads.alone (h : x.Rereads i i' ls) : x.BlockReads (i, none) (i', none) ls where
  opens := h.opens
  ne_nil := h.ne_nil
  count := h.count
  again hpart := by
    obtain ⟨hstart, hend, hprint⟩ := h.again hpart
    exact ⟨hstart, hend, hprint, fun c hc => absurd hc (by simp)⟩

namespace CommentReads

theorem text_eq (h : x.CommentReads c c') : c'.node.text (Source.ofText x.printed) =
    (x.printed.take (c'.leaves.getLast h.visible).stop).drop (c'.leaves.head h.visible).start := by
  have hstart := h.spans.start _ (List.head?_eq_some_head h.visible)
  have hstop := (h.spans.stop _ (List.getLast?_eq_some_getLast h.visible)).1
  rw [Cst.text, Leaf.slice_ofText, hstart, hstop]

/-- The rows of the tokens are those of the comment as it is printed. -/
theorem solidRows_eq (h : x.CommentReads c c') :
    (c'.leaves.flatMap fun l => solidRows (x.printed.point l.start).row (l.word x.printed)) =
      solidRows (x.printed.point (c'.leaves.head h.visible).start).row
        (c.node.text (Source.ofText x.text)).trimEndWide := by
  rw [← h.word, solidRows_trimEnd, h.text_eq]
  exact (h.laid.solidRows_slice (List.head?_eq_some_head h.visible)
    (List.getLast?_eq_some_getLast h.visible)).symm

theorem count (h : x.CommentReads c c') : solidCount x.printed c'.leaves =
    (solid (c.node.text (Source.ofText x.text)).trimEndWide).length := by
  rw [← length_flatMap_solidRows, h.solidRows_eq, length_solidRows]

theorem solid_ne_nil (h : x.CommentReads c c') :
    solid (c.node.text (Source.ofText x.text)).trimEndWide ≠ [] := by
  intro hnil
  have hcount := h.count
  rw [hnil, ← List.cons_head_tail h.visible, solidCount, List.map_cons, List.sum_cons] at hcount
  exact Leaf.solid_word_ne_nil (h.laid.head _ (List.head?_eq_some_head h.visible))
    (h.laid.bounds _ (List.head_mem h.visible)).1
    (List.eq_nil_of_length_eq_zero (Nat.add_eq_zero_iff.mp hcount).1)

theorem exists_cons (h : x.CommentReads c c') :
    ∃ b t, (c.node.text (Source.ofText x.text)).trimEndWide = b :: t :=
  List.exists_cons_of_ne_nil fun hnil => h.solid_ne_nil (by rw [hnil]; rfl)

/-- The comment is printed without a line feed. -/
theorem newline_notMem (h : x.CommentReads c c') :
    newline ∉ (c.node.text (Source.ofText x.text)).trimEndWide := by
  obtain ⟨w, -, hw⟩ := exists_eq_trimEnd_append (c'.node.text (Source.ofText x.printed))
  rw [← h.word]
  intro hmem
  refine h.clean ?_
  rw [hw]
  exact List.mem_append_left _ hmem

theorem trimEndWide_eq (h : x.CommentReads c c') :
    (c'.node.text (Source.ofText x.printed)).trimEndWide =
      (c.node.text (Source.ofText x.text)).trimEndWide := by
  obtain ⟨w, hblank, hw⟩ := exists_eq_trimEnd_append (c'.node.text (Source.ofText x.printed))
  rw [hw, h.word, trimEndWide_append_blank _ hblank]

/-- The comment stands on the row it is printed on. -/
theorem row_eq (h : x.CommentReads c c') {before after : Text} {front : List Leaf}
    (hpart : Part x.printed before
      (32 :: (c.node.text (Source.ofText x.text)).trimEndWide) after front c'.leaves) :
    (x.printed.point c'.node.start).row = before.count newline ∧
      (x.printed.point c'.node.stop).row = before.count newline := by
  have hfirst := List.head?_eq_some_head h.visible
  have hlast := List.getLast?_eq_some_getLast h.visible
  have hrows : solidRows (before.count newline)
      (32 :: (c.node.text (Source.ofText x.text)).trimEndWide) = _ :=
    hpart.rows_eq.symm.trans h.solidRows_eq
  have hstart := row_eq_of_solidRows_eq h.solid_ne_nil hrows
  have hle := (h.laid.start_lt_stop (List.mem_of_mem_head? hfirst) hlast).le
  rw [h.spans.start _ hfirst, (h.spans.stop _ hlast).1]
  refine ⟨hstart.symm, ?_⟩
  rw [point_row, take_eq_append_drop hle, List.count_append, ← h.text_eq, ← point_row, ← hstart,
    List.count_eq_zero.mpr h.clean, Nat.add_zero]

end CommentReads

/-- An item with a comment behind it. -/
theorem Rereads.followed (hx : x.Faithful) (h : x.Rereads i i' ls) (hc : x.CommentReads c c') :
    x.BlockReads (i, some c) (i', some c') (ls ++ c'.leaves) := by
  obtain ⟨b, t, ht⟩ := hc.exists_cons
  have hprint : x.print (x.oldBlock (i, some c)) = x.print (x.old i) ++
      [.extend (32 :: (c.node.text (Source.ofText x.text)).trimEndWide)] := by
    rw [ht]
    refine (hx.trailing (Source.ofText x.text) i _).trans ?_
    rw [ht]
    rfl
  have hprint' : x.print (x.newBlock (i', some c')) = x.print (x.new i') ++
      [.extend (32 :: (c.node.text (Source.ofText x.text)).trimEndWide)] := by
    refine (hx.trailing (Source.ofText x.printed) i' _).trans ?_
    rw [hc.trimEndWide_eq, ht]
    rfl
  have htext : x.blockText (i, some c) =
      x.itemText i ++ 32 :: (c.node.text (Source.ofText x.text)).trimEndWide := by
    rw [blockText, hprint, Stroke.text_extend h.opens h.ne_nil]
    rfl
  refine ⟨?_, ?_, ?_, fun {before after front} hpart => ?_⟩
  · rw [hprint]
    exact h.opens.append_of_ne_nil h.ne_nil (by simp)
  · rw [hprint]
    simp
  · rw [htext, solidCount_append, solid_append, List.length_append, h.count, hc.count]
    rfl
  · rw [htext] at hpart ⊢
    obtain ⟨hitem, hcomment⟩ := hpart.split h.count
    obtain ⟨hstart, hend, hsame⟩ := h.again hitem
    obtain ⟨hrow, hrow'⟩ := hc.row_eq hcomment
    have hclean : newline ∉ 32 :: (c.node.text (Source.ofText x.text)).trimEndWide := fun hmem =>
      (List.mem_cons.mp hmem).elim (by decide) hc.newline_notMem
    refine ⟨hstart, ?_, ?_, ?_⟩
    · rw [hend, List.count_append, List.count_eq_zero.mpr hclean, Nat.add_zero]
    · rw [hprint, hprint', hsame]
    · rintro d hd
      obtain rfl := Option.some.inj hd
      rw [List.count_append] at hrow hrow'
      simp only [Load.follows, Cst.startRow, Source.point_ofText, hc.kind, hrow, hrow', hend,
        beq_self_eq_true, Bool.and_self]

/-! ## Lists -/

end Reading

/-- Nodes one below the other, with the empty lines of the source between neighbours. -/
def Print.spread (print : Node → List Stroke) : Option Mark → List Node → List Stroke
  | _, [] => []
  | before, n :: ns =>
    blank ((before.bind (·.blankBetween n.mark)).getD false) ++ print n ++ spread print (some n.mark) ns

theorem Print.spread_some (print : Node → List Stroke) (m : Mark) (n : Node) (ns : List Node) :
    spread print (some m) (n :: ns) =
      blank ((m.blankBetween n.mark).getD false) ++ spread print none (n :: ns) := by
  rw [spread, spread, List.append_assoc, List.append_assoc]
  rfl

theorem Print.sequence_eq_spread (depth : Int) (before : Option Mark) (ns : List Node) :
    sequence depth before ns = spread (stmt depth) before ns := by
  induction ns generalizing before with
  | nil => rw [sequence]; rfl
  | cons n ns ih => rw [sequence, spread, ih]

/-- Where all nodes come from the source, declarations are no exception. -/
theorem Print.decls_eq_spread {before : Option Mark} {ns : List Node}
    (hbefore : ∀ m, before = some m → m.span.isSome = true) (hns : ∀ n ∈ ns, n.mark.span.isSome = true) :
    decls before ns = spread decl before ns := by
  induction ns generalizing before with
  | nil => rfl
  | cons n ns ih =>
    obtain ⟨hn, hns⟩ := List.forall_mem_cons.mp hns
    rw [decls, spread, ih (fun m hm => by rw [← Option.some.inj hm]; exact hn) hns]
    cases before with
    | none => rfl
    | some m =>
      obtain ⟨a, ha⟩ := Option.isSome_iff_exists.mp (hbefore m rfl)
      obtain ⟨b, hb⟩ := Option.isSome_iff_exists.mp hn
      simp [Mark.blankBetween, ha, hb]

/-- The line feeds between two items, with an empty line or without. -/
def gapText (b : Bool) : Text := if b then [newline, newline] else [newline]

theorem solid_gapText (b : Bool) : solid (gapText b) = [] := by
  cases b <;> rfl

theorem Stroke.text_blank {a rest : List Stroke} (ha : Opens a) (hrest : Opens rest) (hane : a ≠ [])
    (hne : rest ≠ []) (b : Bool) (indent : Text) :
    text indent (a ++ (Print.blank b ++ rest)) = text indent a ++ gapText b ++ text indent rest := by
  cases b with
  | false =>
    rw [List.append_assoc]
    exact text_append ha hrest hane hne indent
  | true =>
    have hraw : Opens (Print.blank true) := Print.opens_blank true
    have hline : text indent (Print.blank true) = [] := rfl
    rw [text_append ha (hraw.append hrest) hane (by simp [Print.blank]),
      text_append hraw hrest (by simp [Print.blank]) hne, hline]
    simp [gapText]

/-- A comment behind an item, if there is one, stands on its last row, and no other one does. -/
theorem Load.blocks_append {source : Source} {b : Item × Option Item} {items : List Item}
    (hcomment : ∀ c, b.2 = some c → follows source b.1 c = true)
    (hnext : b.2 = none → ∀ j, items.head? = some j → follows source b.1 j = false) :
    blocks source (b.1 :: (b.2.toList ++ items)) = b :: blocks source items := by
  obtain ⟨i, c⟩ := b
  cases c with
  | some c =>
    simp only [Option.toList_some, List.singleton_append]
    rw [blocks, if_pos (hcomment c rfl)]
  | none =>
    cases items with
    | nil => rfl
    | cons j items =>
      simp only [Option.toList_none, List.nil_append]
      rw [blocks, if_neg (by rw [hnext rfl j rfl]; simp)]

theorem Load.blocks_ne_nil (source : Source) (i : Item) (items : List Item) :
    ∃ b bs, blocks source (i :: items) = b :: bs ∧ b.1 = i := by
  cases items with
  | nil => exact ⟨_, _, rfl, rfl⟩
  | cons j items =>
    rw [blocks]
    split
    · exact ⟨_, _, rfl, rfl⟩
    · exact ⟨_, _, rfl, rfl⟩

/-- The node of a block covers the rows of its item. -/
theorem Load.span_blockNode {source : Source} {convert : Item → Node}
    (hmark : ∀ i, (itemNode source convert i).mark = markOf source i.node) (b : Item × Option Item) :
    (blockNode source convert b).mark.span =
      some ⟨b.1.node.startRow source, b.1.node.endRow source⟩ := by
  obtain ⟨i, c⟩ := b
  cases c with
  | none => exact congrArg Mark.span (hmark i)
  | some c =>
    have hspan : ((itemNode source convert i).withTrailing (c.node.text source).trimEndWide).mark.span =
        (itemNode source convert i).mark.span := by
      rw [Node.withTrailing, Node.mark_withMark]
    exact hspan.trans (congrArg Mark.span (hmark i))

namespace Reading

variable {x : Reading}

theorem Faithful.span_blockNode (hx : x.Faithful) (source : Source) (b : Item × Option Item) :
    (Load.blockNode source (x.convert source) b).mark.span =
      some ⟨b.1.node.startRow source, b.1.node.endRow source⟩ :=
  Load.span_blockNode (hx.mark source) b

/-- The blocks `bs` of the text are read again from the items `is` of the printed text, with the tokens
`ls`. -/
inductive ReadsAll (x : Reading) : List (Item × Option Item) → List Item → List Leaf → Prop
  | nil : ReadsAll x [] [] []
  | cons {b b' : Item × Option Item} {bs : List (Item × Option Item)} {is : List Item}
      {ls ms : List Leaf} (hb : x.BlockReads b b' ls) (h : ReadsAll x bs is ms) :
      ReadsAll x (b :: bs) (b'.1 :: (b'.2.toList ++ is)) (ls ++ ms)

/-- The strokes of a list of blocks. -/
def strokes (x : Reading) (bs : List (Item × Option Item)) : List Stroke :=
  Print.spread x.print none (bs.map x.oldBlock)

/-- The text that a list of blocks is printed as. -/
def listText (x : Reading) (bs : List (Item × Option Item)) : Text := Stroke.text x.indent (x.strokes bs)

namespace ReadsAll

variable {b b' : Item × Option Item} {bs : List (Item × Option Item)} {is : List Item} {ls : List Leaf}

theorem strokes_singleton (x : Reading) (b : Item × Option Item) :
    x.strokes [b] = x.print (x.oldBlock b) := List.append_nil _

theorem strokes_cons_cons (x : Reading) (b c : Item × Option Item) (bs : List (Item × Option Item)) :
    x.strokes (b :: c :: bs) = x.print (x.oldBlock b) ++
      (Print.blank (((x.oldBlock b).mark.blankBetween (x.oldBlock c).mark).getD false) ++
        x.strokes (c :: bs)) := by
  rw [strokes, List.map_cons, Print.spread, List.map_cons, Print.spread_some]
  rfl

theorem opens (h : x.ReadsAll bs is ls) :
    Stroke.Opens (x.strokes bs) ∧ (bs ≠ [] → x.strokes bs ≠ []) := by
  induction h with
  | nil => exact ⟨Stroke.opens_nil, fun hne => absurd rfl hne⟩
  | @cons b b' bs is ls ms hb _ ih =>
    cases bs with
    | nil =>
      rw [strokes_singleton]
      exact ⟨hb.opens, fun _ => hb.ne_nil⟩
    | cons c bs =>
      rw [strokes_cons_cons]
      exact ⟨hb.opens.append ((Print.opens_blank _).append ih.1), fun _ => by simp [hb.ne_nil]⟩

theorem listText_cons_cons {c : Item × Option Item} {ms : List Leaf} (hb : x.BlockReads b b' ls)
    (h : x.ReadsAll (c :: bs) is ms) :
    x.listText (b :: c :: bs) = x.blockText b ++
      gapText (((x.oldBlock b).mark.blankBetween (x.oldBlock c).mark).getD false) ++
        x.listText (c :: bs) := by
  rw [listText, strokes_cons_cons]
  exact Stroke.text_blank hb.opens h.opens.1 hb.ne_nil (h.opens.2 (by simp)) _ _

theorem listText_singleton (x : Reading) (b : Item × Option Item) : x.listText [b] = x.blockText b := by
  rw [listText, strokes_singleton]
  rfl

/-- The tokens of a list have as many bytes as it is printed with. -/
theorem count (h : x.ReadsAll bs is ls) : solidCount x.printed ls = (solid (x.listText bs)).length := by
  induction h with
  | nil => rfl
  | @cons b b' bs is ls ms hb h ih =>
    rw [solidCount_append, hb.count, ih]
    cases bs with
    | nil => rw [listText_singleton]; rfl
    | cons c bs =>
      rw [listText_cons_cons hb h, solid_append, solid_append, solid_gapText, List.append_nil,
        List.length_append]

/-- The empty line between two items is read as it was printed. -/
theorem blankBetween_eq (hx : x.Faithful) {d : Item × Option Item} {n : Nat} {gap : Bool}
    (hend : b.1.node.endRow (Source.ofText x.printed) = n)
    (hstart : d.1.node.startRow (Source.ofText x.printed) = n + (gapText gap).count newline) :
    (((x.newBlock b).mark.blankBetween (x.newBlock d).mark).getD false) = gap := by
  have hspan := hx.span_blockNode (Source.ofText x.printed) b
  have hspan' := hx.span_blockNode (Source.ofText x.printed) d
  rw [newBlock, newBlock, Mark.blankBetween, hspan, hspan', hend, hstart]
  cases gap <;> simp [gapText]

/-- **A printed list is read again as it was**: its first item stands where the list starts, and what is
read is printed the same. -/
theorem again (hx : x.Faithful) (h : x.ReadsAll bs is ls) {before after : Text} {front : List Leaf}
    (hpart : Part x.printed before (x.listText bs) after front ls) :
    (∀ i, is.head? = some i → i.node.startRow (Source.ofText x.printed) = before.count newline) ∧
      Print.spread x.print none ((Load.blocks (Source.ofText x.printed) is).map x.newBlock) =
        x.strokes bs := by
  induction h generalizing before front with
  | nil => exact ⟨fun i hi => absurd hi (by simp), rfl⟩
  | @cons b b' bs is ls ms hb h ih =>
    cases h with
    | nil =>
      rw [List.append_nil, listText_singleton] at hpart
      obtain ⟨hstart, -, hsame, hcomment⟩ := hb.again hpart
      refine ⟨fun i hi => ?_, ?_⟩
      · rw [← Option.some.inj hi, hstart]
      · rw [Load.blocks_append hcomment fun _ j hj => absurd hj (by simp), strokes_singleton, ← hsame]
        exact List.append_nil _
    | @cons c c' bs is ks ms hc h =>
      have hrest : x.ReadsAll (c :: bs) (c'.1 :: (c'.2.toList ++ is)) (ks ++ ms) := .cons hc h
      rw [listText_cons_cons hb hrest, List.append_assoc] at hpart
      obtain ⟨hfirst, hothers⟩ := hpart.split hb.count
      obtain ⟨hstart, hend, hsame, hcomment⟩ := hb.again hfirst
      obtain ⟨hnext, hsame'⟩ := ih (hothers.skip (solid_gapText _))
      have hnext := hnext c'.1 rfl
      rw [List.count_append, List.count_append] at hnext
      -- The next item starts below the last row of this one.
      have hapart : ∀ j, (c'.1 :: (c'.2.toList ++ is)).head? = some j →
          Load.follows (Source.ofText x.printed) b'.1 j = false := by
        intro j hj
        have hlt : b'.1.node.endRow (Source.ofText x.printed) <
            j.node.startRow (Source.ofText x.printed) := by
          rw [← Option.some.inj hj, hend, hnext]
          unfold gapText
          split <;> simp
        simp [Load.follows, hlt.ne']
      refine ⟨fun i hi => ?_, ?_⟩
      · rw [← Option.some.inj hi, hstart]
      · obtain ⟨d, ds, hds, hd⟩ := Load.blocks_ne_nil (Source.ofText x.printed) c'.1 (c'.2.toList ++ is)
        rw [Load.blocks_append hcomment fun _ => hapart, strokes_cons_cons, ← hsame', hds, List.map_cons,
          List.map_cons, Print.spread, Print.spread_some, hsame,
          blankBetween_eq hx hend (by rw [hd, hnext])]
        rfl

theorem eq_nil_iff (h : x.ReadsAll bs is ls) : bs = [] ↔ is = [] := by
  cases h with
  | nil => simp
  | cons _ _ => simp

end ReadsAll

end Reading

end Stopwatch
