import Mathlib
import Stopwatch.Proofs.Stretches
import Stopwatch.Proofs.ProgramText

/-!
# Loading and printing keep the program text

What a file is printed as is made of its stretches, one after another and nothing else. A stretch of the source
is printed as `Piece.PrintedAs` describes; for all others it is said which line or text it adds.

Results:
* `Stretch.PrintAll`: what stretches make of the lines above them.
* `Load.render_keeps_text`: a loaded file is printed in its stretches, which hold all that is kept as text, in
  the order of the tree.
* `Load.render_misplaces_text`: the two conditions on the nodes of the tree are needed.
-/

namespace Stopwatch

open Text

namespace Stretch

/-- What a stretch makes of the lines above it. -/
inductive Prints (source : Source) (indent : Text) : Stretch → List Text → List Text → Prop
  | piece {p : Piece} {own : List Text} (above : List Text) (h : p.PrintedAs source indent own) :
      Prints source indent (.piece p) above (above ++ own)
  | comment (depth : Int) {i : Item} (above : List Text) (last : Text) (h : i.remark source ≠ []) :
      Prints source indent (.comment depth i) (above ++ [last]) (above ++ [last ++ 32 :: i.remark source])
  | noComment (depth : Int) {i : Item} (above : List Text) (h : i.remark source = []) :
      Prints source indent (.comment depth i) above above
  | line (depth : Int) (t : Text) (above : List Text) :
      Prints source indent (.line depth t) above (above ++ [Stroke.indented indent depth t])
  | blank (above : List Text) : Prints source indent .blank above (above ++ [[]])
  | brace (t : Text) (above : List Text) (last : Text) :
      Prints source indent (.brace t) (above ++ [last]) (above ++ [last ++ t])

/-- What stretches make, one after another, of the lines above them. -/
inductive PrintAll (source : Source) (indent : Text) : List Stretch → List Text → List Text → Prop
  | nil (lines : List Text) : PrintAll source indent [] lines lines
  | cons {s : Stretch} {rest : List Stretch} {above mid below : List Text}
      (hs : s.Prints source indent above mid) (hrest : PrintAll source indent rest mid below) :
      PrintAll source indent (s :: rest) above below

variable {source : Source} {indent : Text} {done out : List Text}

/-- Carrying out the strokes of a stretch prints it. -/
theorem prints_of_run {s : Stretch}
    (hpiece : ∀ p, s = .piece p → p.PrintedAs source indent
      ((p.fragment source).2.printed indent (p.fragment source).1))
    (hrun : Stroke.runFrom indent done (s.strokes source) = .ok out) :
    s.Prints source indent done.reverse out.reverse := by
  cases s with
  | piece p =>
    rw [strokes, Print.runFrom_fragment] at hrun
    obtain rfl := Except.ok.inj hrun
    rw [List.reverse_append, List.reverse_reverse]
    exact .piece _ (hpiece p rfl)
  | comment depth i =>
    cases hremark : i.remark source with
    | nil =>
      simp only [strokes, hremark, Print.trailing] at hrun
      obtain rfl := Except.ok.inj hrun
      exact .noComment depth _ hremark
    | cons b t =>
      simp only [strokes, hremark, Print.trailing] at hrun
      cases done with
      | nil => exact absurd hrun (by simp [Stroke.runFrom])
      | cons last done =>
        obtain rfl := Except.ok.inj hrun
        rw [List.reverse_cons, List.reverse_cons, ← hremark]
        exact .comment depth _ last (by simp [hremark])
  | line depth t =>
    obtain rfl := Except.ok.inj hrun
    rw [List.reverse_cons]
    exact .line depth t _
  | blank =>
    obtain rfl := Except.ok.inj hrun
    rw [List.reverse_cons]
    exact .blank _
  | brace t =>
    cases done with
    | nil => exact absurd hrun (by simp [strokes, Stroke.runFrom])
    | cons last done =>
      obtain rfl := Except.ok.inj hrun
      rw [List.reverse_cons, List.reverse_cons]
      exact .brace t _ last

/-- **Carrying out the strokes of stretches prints them**, by induction on the stretches: each finds the lines
that the ones before it left. -/
theorem printAll_of_run {ss : List Stretch}
    (hpiece : ∀ p, .piece p ∈ ss → p.PrintedAs source indent
      ((p.fragment source).2.printed indent (p.fragment source).1))
    (hrun : Stroke.runFrom indent done (ss.flatMap (strokes source)) = .ok out) :
    PrintAll source indent ss done.reverse out.reverse := by
  induction ss generalizing done with
  | nil =>
    obtain rfl := Except.ok.inj hrun
    exact .nil _
  | cons s ss ih =>
    rw [List.flatMap_cons] at hrun
    obtain ⟨mid, hs, hrest⟩ := Stroke.runFrom_append_ok hrun
    refine .cons (prints_of_run (fun p hp => hpiece p ?_) hs)
      (ih (fun p hp => hpiece p (List.mem_cons_of_mem s hp)) hrest)
    rw [hp]
    exact List.mem_cons_self

end Stretch

namespace Load

/-- The lines of a loaded file are those of its stretches. -/
theorem printAll_of_render {text : Text} {root : Cst} (hwf : root.WellFormed text)
    (hheads : root.HeadsInFront) {s : Settings} {out : Text}
    (hrender : (SourceFile.build (Source.ofText text) root).render s.indent = .ok out) :
    ∃ lines, out = finished lines ∧
      Stretch.PrintAll (Source.ofText text) s.indent (stretches text root) [] lines := by
  rw [SourceFile.render, strokes_stretches, Stroke.run] at hrender
  cases hfrom : Stroke.runFrom s.indent [] ((stretches text root).flatMap
      (Stretch.strokes (Source.ofText text))) with
  | error e =>
    rw [hfrom] at hrender
    exact absurd hrender (by simp [Except.map])
  | ok done =>
    rw [hfrom] at hrender
    obtain rfl := Except.ok.inj hrender
    refine ⟨done.reverse, rfl, Stretch.printAll_of_run (fun p hp => ?_) hfrom⟩
    refine Piece.printedAs s (hwf.laid hheads ?_)
    rw [← pieces_stretches]
    exact List.mem_filterMap.mpr ⟨_, hp, rfl⟩

/-- **Loading and printing lose, add and reorder no program text.** Printing may fail only where a piece has no
token. What is printed are the stretches of the file, which hold all that is kept as text; and if items start
in the order in which they stand, its tokens are printed in the order of the tree. -/
theorem render_keeps_text {text : Text} {root : Cst} {f : SourceFile} (s : Settings)
    (hwf : root.WellFormed text) (hheads : root.HeadsInFront)
    (hload : SourceFile.ofCst text root = .ok f) :
    ((∀ p ∈ pieces (Source.ofText text) root, p.leaves ≠ []) → ∃ out, f.render s.indent = .ok out) ∧
    (∀ out, f.render s.indent = .ok out → ∃ lines, out = finished lines ∧
      Stretch.PrintAll (Source.ofText text) s.indent (stretches text root) [] lines) ∧
    (stretches text root).filterMap Stretch.kept? = texts root ∧
    (root.ItemsInOrder → ((texts root).flatMap Piece.leaves).Sublist (root.leaves "")) := by
  obtain rfl := ofCst_eq_build hload
  exact ⟨fun hvisible => ⟨_, render_eq (hwf.readable hvisible) s.indent⟩,
    fun out hrender => printAll_of_render hwf hheads hrender, kept_stretches text root,
    leaves_texts_sublist hheads⟩

end Load

/-! ## The small file -/

namespace Sample

theorem headsInFront : tree.HeadsInFront := by
  unfold Cst.HeadsInFront
  decide

theorem itemsInOrder : tree.ItemsInOrder := ⟨by decide, by decide⟩

end Sample

theorem Load.render_keeps_text_sample :
    (∃ out lines,
      (SourceFile.build (Source.ofText Sample.text) Sample.tree).render (Settings.indent {}) = .ok out ∧
      out = finished lines ∧ Stretch.PrintAll (Source.ofText Sample.text) (Settings.indent {})
        (stretches Sample.text Sample.tree) [] lines) ∧
    (stretches Sample.text Sample.tree).filterMap Stretch.kept? = texts Sample.tree ∧
    ((texts Sample.tree).flatMap Piece.leaves).Sublist (Sample.tree.leaves "") := by
  obtain ⟨hprints, hlines, hkept, horder⟩ :=
    Load.render_keeps_text {} Sample.wellFormed Sample.headsInFront Sample.ofCst_eq
  obtain ⟨out, hout⟩ := hprints Sample.readable.visible
  obtain ⟨lines, hresult⟩ := hlines out hout
  exact ⟨⟨out, lines, hout, hresult⟩, hkept, horder Sample.itemsInOrder⟩

/-! ## Nodes that do not stand where their tokens do -/

namespace Sample

/-- A body without statements. -/
def bareBody : Cst := branch "block" 20 23 (some "body") [token "\x7b" 20 21, token "\x7d" 22 23]

/-- A function with its keyword in a node that reaches into the body. -/
def reachingFunction : Cst :=
  branch "function_declaration" 11 23 none
    [branch "keyword" 11 21 none [token "func" 11 15], named "identifier" 16 17 (some "name"),
      branch "parameter_list" 17 19 (some "parameters") [token "(" 17 18, token ")" 18 19], bareBody]

def reachingTree : Cst :=
  branch "source_file" 0 24 none [packageClause, token "\n" 9 10, reachingFunction, token "\n" 23 24]

def reachingText : Text := utf8 "package p\n\nfunc f() \x7b\n\x7d\n"

/-- A variable without a value, in a node that starts at `start`. -/
def variableAt (start stop keyword : Nat) : Cst :=
  branch "var_declaration" start stop none
    [token "var" keyword (keyword + 3), named "identifier" (keyword + 4) (keyword + 5) none]

/-- Two variables in nodes that start where the tokens of the other one do. -/
def crossedTree : Cst :=
  branch "source_file" 0 23 none
    [packageClause, token "\n" 9 10, variableAt 17 22 11, variableAt 11 16 17, token "\n" 22 23]

def crossedText : Text := utf8 "package p\n\nvar a\nvar b\n"

theorem stretches_reaching : Load.stretches reachingText reachingTree =
    [.line 0 (utf8 "package p"), .blank,
      .piece ⟨0, "function_declaration", Load.headNodes reachingFunction⟩,
      .brace (utf8 " \x7b\x7d")] := by
  have hbody : Load.bodyStretches reachingText bareBody = [.brace (utf8 " \x7b\x7d")] := by
    rw [Load.bodyStretches, Load.sortedBlocks_eq_map _ (by decide) (by decide)]
    rfl
  have hfunction : Load.declStretches reachingText ⟨"source_file", reachingFunction⟩ =
      .piece ⟨0, "function_declaration", Load.headNodes reachingFunction⟩ ::
        Load.bodyStretches reachingText bareBody := rfl
  have hitems : Load.topItems reachingTree =
      [⟨"source_file", packageClause⟩, ⟨"source_file", reachingFunction⟩] := rfl
  rw [Load.stretches, Load.listStretches, Load.sortedBlocks_eq_map _ (by decide) (by decide), hitems,
    List.map_cons, List.map_singleton, Load.blockStretches, Load.blockStretches, hfunction, hbody]
  rfl

theorem stretches_crossed : Load.stretches crossedText crossedTree =
    [.line 0 (utf8 "package p"), .blank, .piece (.ofItem 0 ⟨"source_file", variableAt 11 16 17⟩),
      .piece (.ofItem 0 ⟨"source_file", variableAt 17 22 11⟩)] := by
  have horder : Load.inOrder (Load.topItems crossedTree) = [⟨"source_file", packageClause⟩,
      ⟨"source_file", variableAt 11 16 17⟩, ⟨"source_file", variableAt 17 22 11⟩] := by
    simp [Load.inOrder, Load.topItems, crossedTree, variableAt, packageClause, branch, token,
      Cst.namedChildren, Cst.children, Cst.kind, Cst.start, Cst.info, List.mergeSort,
      List.MergeSort.Internal.splitInTwo]
  rw [Load.stretches, Load.listStretches, Load.sortedBlocks, horder]
  rfl

theorem wellFormed_reaching : reachingTree.WellFormed reachingText where
  bounds := by decide +kernel
  gaps := by decide +kernel
  rows := by decide +kernel
  pieces := by
    rw [← Load.pieces_stretches, stretches_reaching]
    decide +kernel

theorem wellFormed_crossed : crossedTree.WellFormed crossedText where
  bounds := by decide +kernel
  gaps := by decide +kernel
  rows := by decide +kernel
  pieces := by
    rw [← Load.pieces_stretches, stretches_crossed]
    decide +kernel

end Sample

/-- A function loses its keyword if the node around that reaches into the body, and two declarations change
places if each of their nodes starts where the other one's tokens do. -/
theorem Load.render_misplaces_text :
    (Sample.reachingTree.WellFormed Sample.reachingText ∧
      ∃ f, SourceFile.ofCst Sample.reachingText Sample.reachingTree = .ok f ∧
        f.render (Settings.indent {}) = .ok (utf8 "package p\n\nf() \x7b\x7d\n") ∧
        ¬ utf8 "func" <:+: utf8 "package p\n\nf() \x7b\x7d\n") ∧
    (Sample.crossedTree.WellFormed Sample.crossedText ∧
      (Sample.crossedTree.leaves "").map (·.word Sample.crossedText) =
        [utf8 "package", utf8 "p", utf8 "var", utf8 "a", utf8 "var", utf8 "b"] ∧
      ∃ f, SourceFile.ofCst Sample.crossedText Sample.crossedTree = .ok f ∧
        f.render (Settings.indent {}) = .ok (utf8 "package p\n\nvar b\nvar a\n")) := by
  refine ⟨⟨Sample.wellFormed_reaching, _, ofCst_eq_ok (by decide)
      ⟨Sample.packageClause, List.mem_cons_self, rfl⟩, ?_, by decide +kernel⟩,
    Sample.wellFormed_crossed, by decide +kernel, _, ofCst_eq_ok (by decide)
      ⟨Sample.packageClause, List.mem_cons_self, rfl⟩, ?_⟩
  · rw [SourceFile.render, strokes_stretches, Sample.stretches_reaching]
    rfl
  · rw [SourceFile.render, strokes_stretches, Sample.stretches_crossed]
    rfl

end Stopwatch
