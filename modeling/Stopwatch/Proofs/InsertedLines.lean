import Mathlib
import Stopwatch.Proofs.Characters
import Stopwatch.Proofs.Readable
import Stopwatch.Proofs.TimedLines
import Stopwatch.Proofs.Transformation

/-!
# Timing a file only inserts lines

The declarations of a file that was loaded from a readable tree can be timed line by line. The text of a
file leaves out the empty lines at its end; a pair never changes how many there are.

Results:
* `TextsTimed`: two texts whose lines are related by `LinesTimed`.
* `SourceFile.transform_inserts_lines`: the text of a transformation, line by line, against the text that
  the file has without it.
-/

namespace Stopwatch

open Text

/-! ## Loaded files -/

namespace Layout

theorem mem_lines_step {isFirst inside openEnd : Bool} {raw : Text} {row : List PlacedLeaf} {s : State}
    {l : FragmentLine} (h : l ∈ (step isFirst inside openEnd raw row s).lines) :
    l ∈ s.lines ∨ ∀ b ∈ l.text, b ∈ raw := by
  have htrim : ∀ t : Text, ∀ b ∈ trimEnd t, b ∈ t := fun t b hb =>
    List.mem_reverse.mp ((List.dropWhile_sublist _).subset (List.mem_reverse.mp hb))
  have hkept : ∀ (c : Bool) (t : Text), ∀ b ∈ (if c then t else trimEnd t), b ∈ t := by
    intro c t b hb
    cases c with
    | true => exact hb
    | false => exact htrim t b hb
  unfold step at h
  split at h
  · rcases List.mem_cons.mp h with rfl | h
    · exact Or.inr (hkept openEnd raw)
    · exact Or.inl h
  · split at h
    · split at h
      · exact Or.inl h
      · rcases List.mem_cons.mp h with rfl | h
        · exact Or.inr fun b hb => absurd hb List.not_mem_nil
        · exact Or.inl h
    · rcases List.mem_cons.mp h with rfl | h
      · exact Or.inr fun b hb => List.mem_of_mem_drop (hkept openEnd _ b hb)
      · exact Or.inl h

/-- The lines of a fragment hold only bytes of the rows. -/
theorem mem_row_of_mem_ofPlaced {rows : List Text} {ls : List PlacedLeaf} {l : FragmentLine}
    (h : l ∈ ofPlaced rows ls) : ∀ b ∈ l.text, ∃ r ∈ rows, b ∈ r := by
  have hrow : ∀ i, ∀ b ∈ rows.getD i [], ∃ r ∈ rows, b ∈ r := by
    intro i b hb
    rw [List.getD_eq_getElem?_getD] at hb
    cases hi : rows[i]? with
    | none => simp [hi] at hb
    | some r => exact ⟨r, List.mem_of_getElem? hi, by simpa [hi] using hb⟩
  unfold ofPlaced at h
  split at h
  · next first last _ _ =>
    refine List.foldlRecOn _ _ (motive := fun s : State => ∀ l ∈ s.lines, ∀ b ∈ l.text, ∃ r ∈ rows, b ∈ r)
      (fun l hl => absurd hl List.not_mem_nil) ?_ l (List.mem_reverse.mp h)
    intro s hs i _ l hl b hb
    rcases mem_lines_step hl with hl | hl
    · exact hs l hl b hb
    · refine hrow i b ?_
      have hmem := hl b hb
      split at hmem
      · exact List.mem_of_mem_take hmem
      · exact hmem
  · exact absurd h List.not_mem_nil

end Layout

namespace Load

/-- A comment behind an item stands on one row. -/
theorem newline_notMem_comment {text : Text} {convert : Item → Node}
    (hconvert : ∀ i, (convert i).mark.trailing = none) {items : List Item} {b : Item × Option Item}
    (hb : b ∈ sortedBlocks (Source.ofText text) items) :
    newline ∉ (blockNode (Source.ofText text) convert b).mark.comment := by
  obtain ⟨i, c⟩ := b
  cases c with
  | none =>
    have htrailing := @trailing_itemNode (Source.ofText text) convert hconvert i
    simp [blockNode, Mark.comment, htrailing]
  | some c =>
    have hfollows := (kind_of_mem_blocks _ _ hb).2
    simp only [follows, Bool.and_eq_true, beq_iff_eq, Cst.startRow, Source.point_ofText] at hfollows
    have hslice := newline_notMem_slice hfollows.2
    have htext : newline ∉ (c.node.text (Source.ofText text)).trimEndWide := fun hmem =>
      hslice (by rw [List.drop_take]; exact (trimEndWide_isPrefix _).subset hmem)
    simp only [blockNode, Node.withTrailing, Node.mark_withMark, Mark.comment]
    split
    · next heq =>
      rw [Option.some.inj heq] at htext
      exact fun hmem => htext ((List.mem_cons.mp hmem).resolve_left (by decide))
    · exact List.not_mem_nil

/-- The declarations of a loaded file are ready if no piece of its tree is empty. -/
theorem ready_of_fragments {text : Text} {root : Cst}
    (hroot : ∀ p ∈ pieces (Source.ofText text) root, (p.fragment (Source.ofText text)).2 ≠ []) {n : Node}
    (hn : n ∈ (SourceFile.build (Source.ofText text) root).decls) : n.Ready where
  declaration := isDeclaration_of_mem_build _ hn
  fragments p hp := by
    have hmem : p ∈ (SourceFile.build (Source.ofText text) root).decls.flatMap Print.declFragments :=
      List.mem_flatMap.mpr ⟨n, hn, hp⟩
    rw [declFragments_build] at hmem
    obtain ⟨piece, hpiece, rfl⟩ := List.mem_map.mp hmem
    refine ⟨hroot piece hpiece, fun l hl hnewline => ?_⟩
    obtain ⟨r, hr, hmem⟩ := Layout.mem_row_of_mem_ofPlaced hl newline hnewline
    exact (mem_of_mem_splitLines hr hmem).2 rfl
  comment := by
    rw [decls_build] at hn
    obtain ⟨b, hb, rfl⟩ := List.mem_map.mp hn
    exact newline_notMem_comment (trailing_decl _) hb

theorem ready_of_mem_build {text : Text} {root : Cst} (hroot : root.Readable text) {n : Node}
    (hn : n ∈ (SourceFile.build (Source.ofText text) root).decls) : n.Ready :=
  ready_of_fragments (fun _ hp => fragment_ne_nil hroot hp) hn

end Load

/-! ## The text of a file -/

theorem Stroke.newline_notMem_textLines {indent : Text} {strokes : List Stroke} :
    ∀ l ∈ textLines indent strokes, newline ∉ l := newline_notMem_flatMap_splitLines

theorem Stroke.textLines_ne_nil {strokes : List Stroke} (h : Opens strokes) (hne : strokes ≠ [])
    (indent : Text) : textLines indent strokes ≠ [] := by
  obtain ⟨l, ls, hlines⟩ := List.exists_cons_of_ne_nil ((h.runFrom_eq indent []).2 hne)
  rw [textLines, hlines, List.flatMap_cons]
  exact List.append_ne_nil_of_left_ne_nil (splitLines_ne_nil l) _

theorem SourceFile.render_eq_textLines {f : SourceFile} (h : Stroke.Opens f.strokes) (indent : Text) :
    f.render indent = .ok (finished (Stroke.textLines indent f.strokes)) := by
  rw [render_of_opens h, Stroke.textLines, finished, finished, joinLines_flatMap_splitLines]

/-- The lines are the same, or they are below two lines that are not empty. -/
def SameEnd (old new : List Text) : Prop :=
  old = new ∨ ∃ x a y b after, a ≠ [] ∧ b ≠ [] ∧ old = x ++ a :: after ∧ new = y ++ b :: after

namespace SameEnd

theorem refl (lines : List Text) : SameEnd lines lines := Or.inl rfl

theorem append {old new olds news : List Text} (h : SameEnd old new) (h' : SameEnd olds news) :
    SameEnd (old ++ olds) (new ++ news) := by
  obtain rfl | ⟨x, a, y, b, after, ha, hb, rfl, rfl⟩ := h'
  · obtain rfl | ⟨x, a, y, b, after, ha, hb, rfl, rfl⟩ := h
    · exact Or.inl rfl
    · exact Or.inr ⟨x, a, y, b, after ++ olds, ha, hb, by simp, by simp⟩
  · exact Or.inr ⟨old ++ x, a, new ++ y, b, after, ha, hb, by simp, by simp⟩

theorem exists_endsEmpty {old new : List Text} (h : SameEnd old new) (hne : old ≠ []) :
    ∃ n, EndsEmpty n old ∧ EndsEmpty n new := by
  obtain rfl | ⟨x, a, y, b, after, ha, hb, rfl, rfl⟩ := h
  · obtain ⟨n, hn⟩ := Text.exists_endsEmpty hne
    exact ⟨n, hn, hn⟩
  · obtain ⟨n, hn⟩ := exists_endsEmpty_append after
    exact ⟨n, hn x ha, hn y hb⟩

end SameEnd

theorem DeclTimed.sameEnd {s : Settings} {n : Node} {fs : List TimedFunction} {old new : List Text}
    (h : DeclTimed s n fs old new) : SameEnd old new := by
  have hopen : utf8 " \x7b" ≠ [] := by decide +kernel
  have hbraces : utf8 " \x7b\x7d" ≠ [] := by decide +kernel
  have hclose : utf8 "\x7d" ≠ [] := by decide +kernel
  cases h with
  | other hn => exact .refl _
  | @full m head b identifier init last rest =>
    -- The rest follows the opening brace before and the last line of the pair after.
    obtain ⟨front, call, hcall, hpair⟩ :=
      Pair.exists_lines_eq s.indent (utf8 s.reportTemplate) head.qualifiedName identifier
    rw [hpair]
    exact Or.inr ⟨init, last ++ utf8 " \x7b", init ++ [last ++ utf8 " \x7b"] ++ front, call, rest,
      by simp [hopen], hcall, by simp, by simp⟩
  | @empty m head b identifier init last =>
    exact Or.inr ⟨init, last ++ utf8 " \x7b\x7d" ++ m.comment, _, utf8 "\x7d" ++ m.comment, [],
      by simp [hbraces], by simp [hclose], rfl, rfl⟩

theorem LinesTimed.sameEnd {s : Settings} {ns : List Node} {fs : List TimedFunction}
    {old new : List Text} (h : LinesTimed s ns fs old new) : SameEnd old new := by
  induction h with
  | nil => exact .refl []
  | cons gap hgap first rest ih => exact ((SameEnd.refl gap).append first.sameEnd).append ih

/-- Two texts of the declarations `ns`, before and after timing: their lines, with as many empty ones behind
those of either, are related by `LinesTimed`. The last line is the one behind the final line feed. -/
def TextsTimed (s : Settings) (ns : List Node) (fs : List TimedFunction) (old new : Text) : Prop :=
  ∃ before after n, LinesTimed s ns fs before after ∧
    splitLines old ++ List.replicate n [] = before ++ [[]] ∧
    splitLines new ++ List.replicate n [] = after ++ [[]]

theorem LinesTimed.textsTimed {s : Settings} {ns : List Node} {fs : List TimedFunction}
    {old new : List Text} (h : LinesTimed s ns fs old new) (hne : old ≠ [])
    (hold : ∀ l ∈ old, newline ∉ l) (hnew : ∀ l ∈ new, newline ∉ l) :
    TextsTimed s ns fs (finished old) (finished new) := by
  obtain ⟨n, hn, hn'⟩ := h.sameEnd.exists_endsEmpty hne
  exact ⟨old, new, n, h, splitLines_finished hn hold, splitLines_finished hn' hnew⟩

namespace SourceFile

/-- Where nothing has to be imported, a transformation prints the file with the pairs. -/
theorem transform_of_hasImport (s : Settings) {f : SourceFile}
    (h : ∀ path ∈ requiredImports, f.hasImport path = true) :
    let timed := f.instrument s.plan ⟨f.identifiers⟩
    f.transform s = (timed.1.render s.indent).map fun text => ⟨timed.1, text, timed.2.timed, []⟩ := by
  have htimed : ∀ path ∈ requiredImports,
      (f.instrument s.plan ⟨f.identifiers⟩).1.hasImport path = true := by rwa [hasImport_instrument]
  simp only [transform, ensureImports_of_hasImport htimed]

theorem exists_textsTimed (s : Settings) {f : SourceFile} (hready : ∀ n ∈ f.decls, n.Ready)
    (hne : f.decls ≠ []) (himports : ∀ path ∈ requiredImports, f.hasImport path = true) :
    ∃ old t, f.render s.indent = .ok old ∧ f.transform s = .ok t ∧
      TextsTimed s f.decls t.functions old t.text := by
  obtain ⟨fs, hfs, hopens', hlines⟩ :=
    LinesTimed.of_instrumentAll (s := s) hready none ⟨⟨f.identifiers⟩, []⟩
  have hopens : Stroke.Opens f.strokes := Print.opens_decls_of_ready none hready
  have hstrokes : f.strokes ≠ [] := Print.decls_ne_nil none hready hne
  have hold := render_eq_textLines hopens s.indent
  have hnew := render_eq_textLines (f := (f.instrument s.plan ⟨f.identifiers⟩).1) hopens' s.indent
  have htransform := transform_of_hasImport s himports
  simp only [hnew, Except.map] at htransform
  refine ⟨_, _, hold, htransform, ?_⟩
  change (f.instrument s.plan ⟨f.identifiers⟩).2.timed = [] ++ fs at hfs
  rw [hfs]
  exact hlines.textsTimed (Stroke.textLines_ne_nil hopens hstrokes s.indent)
    Stroke.newline_notMem_textLines Stroke.newline_notMem_textLines

/-- **Timing a file only inserts lines**: four into each function that is timed, below its opening brace, and
the closing brace of one that was empty. -/
theorem transform_inserts_lines (s : Settings) {text : Text} {root : Cst} {f : SourceFile}
    (hload : ofCst text root = .ok f) (hroot : root.Readable text)
    (htime : f.hasImport timePackage = true) (hfmt : f.hasImport fmtPackage = true) :
    ∃ old t, f.render s.indent = .ok old ∧ f.transform s = .ok t ∧
      TextsTimed s f.decls t.functions old t.text := by
  obtain ⟨rfl, hpackage⟩ := Load.ofCst_ok hload
  obtain ⟨d, hd, -⟩ := List.any_eq_true.mp hpackage
  exact exists_textsTimed s (fun n hn => Load.ready_of_mem_build hroot hn)
    (List.ne_nil_of_mem hd) (by simp [requiredImports, htime, hfmt])

end SourceFile

/-! ## The small file -/

namespace Sample

theorem imports_eq (source : Source) : (SourceFile.build source tree).imports =
    [⟨Quoted.strip (source.slice 21 26), source.slice 21 26, none⟩,
      ⟨Quoted.strip (source.slice 28 34), source.slice 28 34, none⟩] := by
  have hdecl : Load.blockNode source (Load.decl source) (⟨"source_file", importDecl⟩, none) =
      Load.importDecl source importDecl := rfl
  rw [SourceFile.imports, Load.decls_build, sortedBlocks_top, List.map_cons, List.map_cons, hdecl,
    Load.importDecl_eq, sortedBlocks_imports]
  rfl

theorem hasImport_time : (SourceFile.build (Source.ofText text) tree).hasImport timePackage = true := by
  rw [SourceFile.hasImport, imports_eq]
  decide +kernel

theorem hasImport_fmt : (SourceFile.build (Source.ofText text) tree).hasImport fmtPackage = true := by
  rw [SourceFile.hasImport, imports_eq]
  decide +kernel

end Sample

theorem SourceFile.transform_inserts_lines_sample :
    ∃ old t,
      (SourceFile.build (Source.ofText Sample.text) Sample.tree).render (Settings.indent {}) = .ok old ∧
      (SourceFile.build (Source.ofText Sample.text) Sample.tree).transform {} = .ok t ∧
      TextsTimed {} (SourceFile.build (Source.ofText Sample.text) Sample.tree).decls t.functions old
        t.text :=
  SourceFile.transform_inserts_lines {} Sample.ofCst_eq Sample.readable Sample.hasImport_time
    Sample.hasImport_fmt

end Stopwatch
