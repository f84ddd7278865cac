import Mathlib
import Stopwatch.Proofs.SourceOrder
import Stopwatch.Proofs.WholeTokens

/-!
# The lines of a piece

Every signature, statement, comment and declaration that goes through as text is printed as its own
source rows, from its first token to its last. What may differ is white space at the ends of rows and the
number of empty rows, and neither inside a token.

Results:
* `Cst.WellFormed`: what is asked of a concrete tree.
* `Piece.printedAs`: a piece is printed as `Piece.PrintedAs` describes.
-/

namespace Stopwatch

open Text

/-! ## Well-formed trees -/

/-- A concrete tree that fits its source. -/
structure Cst.WellFormed (text : Text) (root : Cst) : Prop where
  /-- Tokens are bytes of the source. -/
  bounds : ∀ l ∈ root.leaves "", l.start < l.stop ∧ l.stop ≤ text.length
  /-- They come in order, with nothing but white space between neighbours. -/
  gaps : (root.leaves "").IsChain fun a b => a.stop ≤ b.start ∧
    ∀ c ∈ (Source.ofText text).slice a.stop b.start, isBlank c = true
  /-- A token that starts a row, which does not start inside another one, does not start with white
  space. -/
  rows : (root.leaves "").IsChain fun a b =>
    a.lastRow (Source.ofText text) < b.firstRow (Source.ofText text) →
      b.beginsSolid (Source.ofText text) = true
  /-- Neither does a token that starts a piece. -/
  pieces : ∀ p ∈ Load.pieces (Source.ofText text) root, ∀ l, p.leaves.head? = some l →
    l.beginsSolid (Source.ofText text) = true

namespace Cst.WellFormed

variable {text : Text} {root : Cst}

/-- The tokens of a piece stand together. -/
theorem leaves_isInfix (hheads : root.HeadsInFront) {p : Piece}
    (hp : p ∈ Load.pieces (Source.ofText text) root) : p.leaves <:+: root.leaves "" := by
  obtain ⟨depth, i, rfl, hi⟩ | ⟨c, hc, hkind, rfl⟩ := Load.piece_cases _ hp
  · exact hi.leaves_isInfix depth
  · have hleaves : (Piece.mk 0 c.kind (Load.headNodes c)).leaves =
        leavesAll c.kind (Load.frontNodes c) := hheads c hc hkind
    rw [hleaves]
    cases root with
    | node rootInfo rootChildren =>
      have hwithin : c.Within (.node rootInfo rootChildren) :=
        .child (List.mem_filter.mp hc).1 .self
      cases c with
      | node info cs =>
        obtain ⟨rest, hrest⟩ : Load.frontNodes (.node info cs) <+: cs := List.takeWhile_prefix _
        have hfront : leavesAll info.kind (Load.frontNodes (.node info cs)) <+:
            leavesAll info.kind cs := by
          refine ⟨leavesAll info.kind rest, ?_⟩
          simp only [leavesAll_eq_flatMap, ← List.flatMap_append, hrest]
        exact hfront.isInfix.trans (leavesAll_isInfix hwithin)

theorem laid (h : root.WellFormed text) (hheads : root.HeadsInFront) {p : Piece}
    (hp : p ∈ Load.pieces (Source.ofText text) root) : Leaf.Laid (Source.ofText text) p.leaves where
  bounds l hl := h.bounds l ((leaves_isInfix hheads hp).subset hl)
  gaps := List.IsChain.infix h.gaps (leaves_isInfix hheads hp)
  rows := List.IsChain.infix h.rows (leaves_isInfix hheads hp)
  head := h.pieces p hp

/-- A token that does not end before it starts and comes after another one. -/
def Follows (a b : Leaf) : Prop := a.stop ≤ b.start ∧ b.start ≤ b.stop

instance : IsTrans Leaf Follows := ⟨fun _ _ _ hab hbc => ⟨(hab.1.trans hab.2).trans hbc.1, hbc.2⟩⟩

theorem ordered (h : root.WellFormed text) :
    (root.leaves "").Pairwise fun a b => a.stop ≤ b.start := by
  have hchain : (root.leaves "").IsChain Follows :=
    h.gaps.imp_of_mem_imp fun a b _ hb hab => ⟨hab.1, (h.bounds b hb).1.le⟩
  exact (List.isChain_iff_pairwise.mp hchain).imp And.left

/-- If every piece has a token, the tree is readable. -/
theorem readable (h : root.WellFormed text)
    (hvisible : ∀ p ∈ Load.pieces (Source.ofText text) root, p.leaves ≠ []) : root.Readable text :=
  ⟨fun l hl => (h.bounds l hl).1.le, h.ordered, hvisible⟩

end Cst.WellFormed

/-! ## Printing a loaded file -/

/-- The lines that a piece is printed as. -/
structure Piece.PrintedAs (source : Source) (indent : Text) (p : Piece) (lines : List Text) : Prop where
  /-- They are the source rows of the piece, with other white space at their ends and one empty line in
  place of several. -/
  rows : List.Forall₂ (Row.PrintedAs indent) (Row.squeeze (Leaf.relaidRows source p.leaves)) lines
  /-- All bytes other than white space are there, in order. -/
  solid : Stopwatch.solid (joinLines lines) =
    Stopwatch.solid (joinLines (Leaf.sourceRows source p.leaves))
  /-- Tokens over several rows are there byte for byte. -/
  whole : ∀ l ∈ p.leaves, l.firstRow source < l.lastRow source → l.EndsKept source p.leaves →
    source.slice l.start l.stop <:+: joinLines lines

theorem FragmentLine.row_printedAs (indent : Text) (depth : Int) (l : FragmentLine) :
    l.row.PrintedAs indent (l.printed indent depth) := by
  unfold Row.PrintedAs FragmentLine.printed FragmentLine.row
  cases l.verbatim with
  | true => rfl
  | false => exact ⟨(depth + l.depth).toNat, rfl⟩

theorem Fragment.rows_printedAs (indent : Text) (depth : Int) (f : Fragment) :
    List.Forall₂ (Row.PrintedAs indent) (f.map FragmentLine.row) (f.printed indent depth) := by
  unfold Fragment.printed
  induction f with
  | nil => exact .nil
  | cons l f ih => exact .cons (l.row_printedAs indent depth) ih

theorem Settings.isBlank_of_mem_indent (s : Settings) : ∀ b ∈ s.indent, isBlank b = true := by
  intro b hb
  unfold Settings.indent at hb
  split at hb
  · rw [List.mem_singleton.mp hb]
    decide
  · rw [List.eq_of_mem_replicate hb]
    decide

/-- **The lines of a piece** are its source rows, up to white space outside its tokens. -/
theorem Piece.printedAs {text : Text} {p : Piece} (s : Settings)
    (h : Leaf.Laid (Source.ofText text) p.leaves) :
    p.PrintedAs (Source.ofText text) s.indent
      ((p.fragment (Source.ofText text)).2.printed s.indent (p.fragment (Source.ofText text)).1) := by
  have hrows : List.Forall₂ (Row.PrintedAs s.indent)
      (Row.squeeze (Leaf.relaidRows (Source.ofText text) p.leaves))
      ((p.fragment (Source.ofText text)).2.printed s.indent p.depth) := by
    rw [← Layout.rows_ofPlaced h]
    exact Fragment.rows_printedAs s.indent p.depth _
  refine ⟨hrows, solid_joinLines_of_printed s.isBlank_of_mem_indent hrows, ?_⟩
  intro l hl hspan hkept
  rw [Leaf.firstRow_ofText, Leaf.lastRow_ofText] at hspan
  exact h.slice_infix_joinLines hl hspan hkept hrows

/-- The small file of the samples is well formed. -/
theorem Sample.wellFormed : tree.WellFormed text where
  bounds := by decide +kernel
  gaps := by decide +kernel
  rows := by decide +kernel
  pieces := by
    rw [pieces_eq]
    decide +kernel

end Stopwatch
