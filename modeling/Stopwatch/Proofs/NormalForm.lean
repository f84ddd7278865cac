import Mathlib
import Stopwatch.Proofs.FixedPoint
import Stopwatch.Proofs.LoadedRows
import Stopwatch.Proofs.Printable

/-!
# The normal form of a printed file

Whatever white space a source has, its file is printed in one form: no empty line at the top or at the end, no
two of them on end, nothing behind the text of a line, and an empty line between two neighbours of a list
exactly where the source had a row between them. Timing the functions and adding imports keep the form, as
what they insert is neat and comes from no source row.

* `SourceFile.NormalForm`: the form.
* `Node.NeatDecl.instrument`, `Imports.AddedAll.originsOf_eq`: what one step of the transformation keeps.
* `SourceFile.printed_normalForm`: a loaded file is printed in its normal form, timed or not.
* `Load.loose_trees_misprinted`: trees for which this fails.
-/

namespace Stopwatch

open Text Print

/-! ## Timing -/

namespace Node

/-- **Timing one declaration** leaves it neat, and what it keeps of the source as it is. -/
theorem NeatDecl.instrument {n : Node} (h : n.NeatDecl) (hn : n.isDeclaration = true) (plan : Plan)
    (p : Progress) :
    (n.instrument plan p).1.NeatDecl ∧ (n.instrument plan p).1.origin = n.origin := by
  cases htimed : n.isTimed plan.skipPrefix with
  | false =>
    rw [instrument_of_not_isTimed plan hn htimed]
    exact ⟨h, rfl⟩
  | true =>
    obtain ⟨m, head, b, rfl⟩ := exists_of_isTimed htimed
    rw [instrument_of_isTimed plan hn htimed]
    have hidentifier : newline ∉ Names.fresh p.names.taken (Names.normalize plan.startIdentifier) :=
      (Names.isIdentifier_fresh _ (Names.isIdentifier_normalize _)).newline_notMem
    cases h with
    | function hm hsignature hstmts =>
      refine ⟨.function hm hsignature fun s hs => ?_, rfl⟩
      rcases List.mem_append.mp hs with hs | hs
      · simp only [Plan.time, Names.allocate, Pair.stmts, List.mem_cons, List.not_mem_nil, or_false] at hs
        rcases hs with rfl | rfl
        · exact .start _ _ hidentifier
        · exact .report _ _ hidentifier
      · exact hstmts s hs

/-- Timing declarations one after another. -/
theorem NeatDecl.instrumentAll {ns : List Node} (h : ∀ n ∈ ns, n.NeatDecl)
    (hdecl : ∀ n ∈ ns, n.isDeclaration = true) (plan : Plan) (p : Progress) :
    (∀ n ∈ (instrumentAll plan ns p).1, n.NeatDecl) ∧
      (instrumentAll plan ns p).1.map origin = ns.map origin := by
  induction ns generalizing p with
  | nil => exact ⟨h, rfl⟩
  | cons n ns ih =>
    obtain ⟨hn, hns⟩ := List.forall_mem_cons.mp h
    obtain ⟨hdecln, hdeclns⟩ := List.forall_mem_cons.mp hdecl
    obtain ⟨hneat, horigin⟩ := hn.instrument hdecln plan p
    obtain ⟨hrest, horigins⟩ := ih hns hdeclns (n.instrument plan p).2
    refine ⟨List.forall_mem_cons.mpr ⟨hneat, hrest⟩, ?_⟩
    rw [List.map_cons, ← horigin, ← horigins]
    rfl

end Node

/-! ## Adding imports -/

namespace Imports

theorem neatItem_newEntry (path : Text) : (newEntry path).NeatItem :=
  .entry oneRow_nil (.newSpec path)

theorem adds_neatDecl : Adds Node.NeatDecl where
  entry path m left right grouped grouped' h := by
    cases h with
    | imports _ hm hspecs =>
      obtain ⟨hleft, hright⟩ := List.forall_mem_append.mp hspecs
      exact .imports grouped' hm
        (List.forall_mem_append.mpr ⟨hleft, List.forall_mem_cons.mpr ⟨neatItem_newEntry path, hright⟩⟩)
  decl path := .imports false oneRow_nil (by simpa using neatItem_newEntry path)

/-- A new entry comes from no source row, and is no text of the source. -/
theorem Added.originsOf_eq {path : Text} {ds es : List Node} (h : Added path ds es) :
    originsOf es = originsOf ds := by
  cases h with
  | entry before after m left right grouped =>
    have horigin : ∀ g, (Node.importDecl m (left ++ newEntry path :: right) g).origin =
        (Node.importDecl m (left ++ right) grouped).origin := by
      intro g
      simp only [Node.origin, Node.listed, declFragments, List.filterMap_append, List.filterMap_cons]
      rfl
    simp only [originsOf, List.map_append, List.map_cons, horigin]
  | decl before after =>
    simp only [originsOf, List.map_append, List.map_cons, List.filter_append, List.filter_cons]
    rfl

theorem AddedAll.originsOf_eq {paths : List Text} {ds es : List Node} (h : AddedAll paths ds es) :
    originsOf es = originsOf ds := by
  induction h with
  | nil => rfl
  | cons first _ ih => exact ih.trans first.originsOf_eq

end Imports

/-! ## Where neighbours meet -/

/-- The rows `above` and `below` are neighbours in `whole`. There is one empty row between them if `g` is true
and none otherwise, as tidy rows do not start or end with one. -/
structure Row.Meet (whole above below : List Row) (g : Bool) : Prop where
  within : above ++ (gap g ++ below) <:+: whole
  above : above ≠ [] ∧ Tidy above
  below : below ≠ [] ∧ Tidy below

theorem Row.isInfix_extend (a s : List Row) (r : Row) (t : Text) : s <:+: extend (a ++ (s ++ [r])) t := by
  rw [← List.append_assoc, extend_concat]
  exact ⟨a, _, rfl⟩

namespace Print

variable {indent : Text} {whole : List Row} {print : Node → List Stroke} {rows : Node → List Row}
  {unplaced : Bool}

/-- Two neighbours in a list that both come from the source are parted as the source has it: by an empty row if
there is a source row between them. The list is printed as the rows `whole`, or as some of them. -/
def Parted (whole : List Row) (rows : Node → List Row) (unplaced : Bool) (ns : List Node) : Prop :=
  ∀ before x y after a b, ns = before ++ x :: y :: after → x.mark.span = some a → y.mark.span = some b →
    Row.Meet whole (stackRows rows unplaced none (before ++ [x]))
      (stackRows rows unplaced none (y :: after)) (decide (a.endRow + 1 < b.startRow))

theorem Rowed.parted_stack {ns : List Node} (h : ∀ n ∈ ns, Rowed indent (print n) (rows n) ∧ rows n ≠ [])
    (hwhole : ∀ before x y after, ns = before ++ x :: y :: after →
      stackRows rows unplaced none ns <:+: whole) :
    Parted whole rows unplaced ns := by
  rintro before x y after a b rfl ha hb
  have hwithin := hwhole before x y after rfl
  have hblank : x.mark.blankBetween y.mark = some (decide (a.endRow + 1 < b.startRow)) := by
    simp only [Mark.blankBetween, ha, hb]
  rw [stackRows_append, hblank, Option.getD_some] at hwithin
  have hpart : ∀ ms ⊆ before ++ x :: y :: after, ms ≠ [] →
      stackRows rows unplaced none ms ≠ [] ∧ Row.Tidy (stackRows rows unplaced none ms) := by
    intro ms hsubset hne
    obtain ⟨hrowed, hrows⟩ := stack fun n hn => h n (hsubset hn)
    exact ⟨hrows hne, hrowed.tidy⟩
  have habove : before ++ [x] ⊆ before ++ x :: y :: after := by
    rw [List.append_cons before x (y :: after)]
    exact List.subset_append_left _ _
  exact ⟨hwithin, hpart _ habove (by simp), hpart _ (by simp) (by simp)⟩

theorem rows_isInfix_stackRows {n : Node} {ns : List Node} (hn : n ∈ ns) (before : Option Mark) :
    rows n <:+: stackRows rows unplaced before ns := by
  induction ns generalizing before with
  | nil => exact absurd hn List.not_mem_nil
  | cons k ns ih =>
    rw [stackRows]
    rcases List.mem_cons.mp hn with rfl | hn
    · exact ⟨_, _, rfl⟩
    · exact (ih hn _).trans (List.suffix_append _ _).isInfix

/-- A list of more than one node below a declaration is printed as rows of that. -/
theorem listed_isInfix_declRows (indent : Text) {d x y : Node} {before after : List Node}
    (h : d.listed = before ++ x :: y :: after) :
    stackRows (stmtRows indent) false none d.listed <:+: declRows indent d := by
  have hne : d.listed ≠ [] := by simp [h]
  cases d with
  | importDecl m entries grouped =>
    obtain ⟨m, s, heq, -, -⟩ | ⟨-, hrows⟩ := importDecl_cases indent entries grouped
    · have hlength := congrArg List.length (heq.symm.trans h)
      simp only [List.length_append, List.length_cons, List.length_nil] at hlength
      omega
    · rw [declRows, hrows]
      exact Row.isInfix_extend _ _ _ _
  | funcDecl m head b =>
    cases b with
    | none => exact absurd rfl hne
    | some b =>
      have hfull : b.stmts.isEmpty = false := List.isEmpty_eq_false_iff.mpr hne
      rw [declRows, funcRows, hfull, if_neg (by simp)]
      exact Row.isInfix_extend _ _ _ _
  | _ => exact absurd rfl hne

end Print

theorem Node.NeatDecl.neatItem_of_mem_listed {d n : Node} (h : d.NeatDecl) (hn : n ∈ d.listed) :
    n.NeatItem := by
  cases h with
  | imports _ _ hspecs => exact hspecs n hn
  | function _ _ hstmts => exact hstmts n hn
  | _ => exact absurd hn List.not_mem_nil

/-! ## The text of tidy rows -/

namespace Text

theorem joinLines_cons_eq (b : UInt8) (t : Text) (ls : List Text) :
    ∃ rest, joinLines ((b :: t) :: ls) = b :: rest := by
  cases ls with
  | nil => exact ⟨t, rfl⟩
  | cons l ls => exact ⟨_, rfl⟩

/-- Without the line feeds at its end, a text that does not start with one starts as before and ends with
something else. -/
theorem dropFinalNewlines_cons {b : UInt8} (hb : b ≠ newline) (t : Text) :
    (∃ rest, dropFinalNewlines (b :: t) = b :: rest) ∧
      ∃ front c, c ≠ newline ∧ dropFinalNewlines (b :: t) = front ++ [c] := by
  have hne : dropFinalNewlines (b :: t) ≠ [] := by
    intro hnil
    rw [dropFinalNewlines, List.reverse_eq_nil_iff, List.dropWhile_eq_nil_iff] at hnil
    exact hb (by simpa using hnil b (by simp))
  obtain ⟨front, c, hfront⟩ := (List.eq_nil_or_concat (dropFinalNewlines (b :: t))).resolve_left hne
  rw [List.concat_eq_append] at hfront
  refine ⟨?_, front, c, fun hc => ?_, hfront⟩
  · obtain ⟨a, rest, hcons⟩ := List.exists_cons_of_ne_nil hne
    have hprefix : dropFinalNewlines (b :: t) <+: b :: t := by
      rw [dropFinalNewlines, ← List.reverse_suffix, List.reverse_reverse]
      exact List.dropWhile_suffix _
    rw [hcons] at hprefix ⊢
    rw [(List.cons_prefix_cons.mp hprefix).1]
    exact ⟨rest, rfl⟩
  · have hlast : (dropFinalNewlines (b :: t)).getLast? = some c := by rw [hfront, List.getLast?_concat]
    have hhead := List.head?_dropWhile_not (· == newline) (b :: t).reverse
    rw [dropFinalNewlines, List.getLast?_reverse] at hlast
    rw [hlast, hc] at hhead
    exact absurd hhead (by simp)

end Text

theorem Row.Tidy.exists_finished {rows : List Row} (h : Tidy rows) (hne : rows ≠ []) :
    (∃ b rest, b ≠ newline ∧ finished (rows.map Row.text) = b :: rest) ∧
      (∃ front b, b ≠ newline ∧ finished (rows.map Row.text) = front ++ [b, newline]) ∧
      ∃ n, (finished (rows.map Row.text)).splitLines ++ List.replicate n [] = rows.map Row.text ++ [[]] := by
  have hclean : ∀ l ∈ rows.map Row.text, newline ∉ l := by simpa using h.inline
  obtain ⟨r, rest, rfl⟩ := List.exists_cons_of_ne_nil hne
  have hmap : (r :: rest).map Row.text ≠ [] := by simp
  obtain ⟨n, hn⟩ := exists_endsEmpty hmap
  obtain ⟨b, t, hb⟩ := List.exists_cons_of_ne_nil (h.first r rfl).2
  have hfirst : b ≠ newline := by
    rintro rfl
    exact h.inline r List.mem_cons_self (by simp [hb])
  obtain ⟨u, hu⟩ := joinLines_cons_eq b t (rest.map Row.text)
  obtain ⟨⟨v, hv⟩, front, c, hc, hfront⟩ := dropFinalNewlines_cons hfirst u
  refine ⟨⟨b, v ++ [newline], hfirst, ?_⟩, ⟨front, c, hc, ?_⟩, n, splitLines_finished hn hclean⟩
  · rw [List.map_cons, hb, finished, hu, hv]
    rfl
  · rw [List.map_cons, hb, finished, hu, hfront, List.append_assoc]
    rfl

/-! ## The normal form -/

/-- The text `out` is the normal form of the file `f`, which comes from the tree `root` of `text`. -/
structure SourceFile.NormalForm (text : Text) (root : Cst) (indent : Text) (f : SourceFile) (out : Text) :
    Prop where
  /-- The first line is not empty. -/
  starts : ∃ b rest, b ≠ newline ∧ out = b :: rest
  /-- There is one line feed at the end. -/
  ends : ∃ front b, b ≠ newline ∧ out = front ++ [b, newline]
  /-- The lines are the rows of the file, less those at the end of its last token that are empty. -/
  lines : ∃ n, out.splitLines ++ List.replicate n [] = (f.rows indent).map Row.text ++ [[]]
  /-- No two empty rows stand on end and no row ends with white space, up to what is inside a token. -/
  tidy : Row.Tidy (f.rows indent)
  decls : Parted (f.rows indent) (declRows indent) true f.decls
  lists : ∀ d ∈ f.decls, Parted (f.rows indent) (stmtRows indent) false d.listed
  /-- All that comes from the source is there: the rows it was on, and where its tokens go over several. -/
  origins : originsOf f.decls =
    (Load.sortedBlocks (Source.ofText text) (Load.topItems root)).map fun b => b.1.origin text

namespace SourceFile

variable {text indent : Text} {root : Cst} {f : SourceFile}

/-- **A file of neat declarations is printed in its normal form.** -/
theorem normalForm_of_neat (hindent : newline ∉ indent) (hneat : ∀ n ∈ f.decls, n.NeatDecl)
    (horigins : originsOf f.decls =
      (Load.sortedBlocks (Source.ofText text) (Load.topItems root)).map fun b => b.1.origin text)
    (hne : f.decls ≠ []) :
    ∃ out, f.render indent = .ok out ∧ f.NormalForm text root indent out := by
  obtain ⟨hrowed, hrows⟩ := f.rowed_strokes hindent hneat
  obtain ⟨hstarts, hends, hlines⟩ := hrowed.tidy.exists_finished (hrows hne)
  refine ⟨_, render_of_opens hrowed.opens indent, ?_⟩
  rw [hrowed.lines]
  exact {
    starts := hstarts
    ends := hends
    lines := hlines
    tidy := hrowed.tidy
    decls := Rowed.parted_stack (fun n hn => (hneat n hn).rowed hindent)
      fun _ _ _ _ _ => List.infix_refl _
    lists := fun d hd => Rowed.parted_stack
      (fun n hn => ((hneat d hd).neatItem_of_mem_listed hn).rowed hindent)
      fun _ _ _ _ hlisted => (listed_isInfix_declRows indent hlisted).trans
        (rows_isInfix_stackRows hd none)
    origins := horigins }

/-- **Loaded files are printed in their normal form, before as well as after they are timed.** -/
theorem printed_normalForm (hload : ofCst text root = .ok f) (h : root.Orderly text) (s : Settings) :
    (∃ out, f.render s.indent = .ok out ∧ f.NormalForm text root s.indent out) ∧
      ∃ t, f.transform s = .ok t ∧ t.tree.NormalForm text root s.indent t.text := by
  obtain ⟨rfl, hpackage⟩ := Load.ofCst_ok hload
  set f := build (Source.ofText text) root
  have hindent := newline_notMem_indent s
  have hneat : ∀ n ∈ f.decls, n.NeatDecl := h.neat_build
  have horigins := h.origins_build
  have hne : ∀ ds : List Node, originsOf ds = originsOf f.decls → ds ≠ [] := by
    rintro ds hds rfl
    obtain ⟨n, hn, -⟩ := List.any_eq_true.mp hpackage
    rw [Load.decls_build, List.map_eq_nil_iff.mp (hds.trans horigins).symm] at hn
    exact absurd hn List.not_mem_nil
  refine ⟨normalForm_of_neat hindent hneat horigins (hne _ rfl), ?_⟩
  -- The transformation times the functions, then adds the imports, then prints.
  obtain ⟨htimed, hsame⟩ := Node.NeatDecl.instrumentAll hneat
    (fun n hn => Load.isDeclaration_of_mem_build _ hn) s.plan ⟨⟨f.identifiers⟩, []⟩
  obtain ⟨-, -, hadded⟩ := (f.instrument s.plan ⟨f.identifiers⟩).1.ensureImports_added requiredImports
  have hall : originsOf ((f.instrument s.plan ⟨f.identifiers⟩).1.ensureImports requiredImports).2.decls =
      originsOf f.decls := by
    rw [hadded.originsOf_eq]
    exact congrArg (List.filter fun o => o.span.isSome) hsame
  obtain ⟨out, hrender, hform⟩ := normalForm_of_neat hindent
    (hadded.forall_adds Imports.adds_neatDecl htimed) (hall.trans horigins) (hne _ hall)
  simp only [transform, hrender]
  exact ⟨_, rfl, hform⟩

end SourceFile

theorem Sample.orderly : tree.Orderly text where
  tokens := ⟨wellFormed.bounds, wellFormed.gaps, wellFormed.rows, by decide +kernel⟩
  items := by decide +kernel
  packages := by decide +kernel
  entries := by decide +kernel
  named := by decide +kernel
  paths := by decide +kernel
  heads := by decide +kernel

theorem SourceFile.printed_normalForm_sample :
    SourceFile.ofCst Sample.text Sample.tree = .ok (build (Source.ofText Sample.text) Sample.tree) ∧
      Sample.tree.Orderly Sample.text ∧
      (∃ out, (build (Source.ofText Sample.text) Sample.tree).render (Settings.indent {}) = .ok out ∧
        (build (Source.ofText Sample.text) Sample.tree).NormalForm Sample.text Sample.tree
          (Settings.indent {}) out) ∧
      ∃ t, (build (Source.ofText Sample.text) Sample.tree).transform {} = .ok t ∧
        t.tree.NormalForm Sample.text Sample.tree (Settings.indent {}) t.text :=
  ⟨Sample.ofCst_eq, Sample.orderly, printed_normalForm Sample.ofCst_eq Sample.orderly {}⟩

/-! ## Trees that are not orderly -/

/-- The tree `root` of `text`, with tokens in order and no comment, none of which goes over several rows, is
printed as `printed`. -/
structure Load.PrintedAs (root : Cst) (text printed : Text) : Prop where
  spaced : root.Spaced text
  nul : 0 ∉ text
  leaves : ∀ l ∈ root.leaves "", l.kind ≠ "comment" ∧
    l.firstRow (Source.ofText text) = l.lastRow (Source.ofText text)
  prints : ∃ f, SourceFile.ofCst text root = .ok f ∧ f.render (Settings.indent {}) = .ok printed

namespace Sample

/-- A package clause with a name that is empty. -/
def namelessClause : Cst :=
  branch "package_clause" 0 7 none [token "package" 0 7, named "package_identifier" 7 7 none]

def namelessTree : Cst := branch "source_file" 0 8 none [namelessClause, token "\n" 7 8]

/-- An import with a name and a path that is empty. -/
def pathlessImport : Cst :=
  branch "import_declaration" 11 19 none
    [token "import" 11 17,
      branch "import_spec" 18 19 none
        [named "package_identifier" 18 19 (some "name"),
          named "interpreted_string_literal" 19 19 (some "path")]]

def pathlessTree : Cst :=
  branch "source_file" 0 20 none [packageClause, token "\n" 9 10, pathlessImport, token "\n" 19 20]

/-- A function with its keyword in a node that reaches into the body. -/
def hiddenFunction : Cst :=
  branch "function_declaration" 11 21 none
    [branch "keyword" 11 20 none [token "func" 11 15], token "space" 15 16,
      named "identifier" 17 18 (some "name"),
      branch "block" 19 21 (some "body") [token "\x7b" 19 20, token "\x7d" 20 21]]

def hiddenTree : Cst :=
  branch "source_file" 0 22 none [packageClause, token "\n" 9 10, hiddenFunction, token "\n" 21 22]

def namelessText : Text := utf8 "package\n"

def pathlessText : Text := utf8 "package p\n\nimport x\n"

def hiddenText : Text := utf8 "package p\n\nfunc \nz \x7b\x7d\n"

/-- A package clause and another declaration. -/
theorem strokes_clause_and {text : Text} {root d : Cst} {strokes : List Stroke}
    (hitems : Load.topItems root = [⟨"source_file", packageClause⟩, ⟨"source_file", d⟩])
    (hplain : d.kind ≠ "comment")
    (hdecl : Print.decl (Load.itemNode (Source.ofText text) (Load.decl (Source.ofText text))
      ⟨"source_file", d⟩) = strokes) :
    (SourceFile.build (Source.ofText text) root).strokes =
      [.line 0 (utf8 "package " ++ (Source.ofText text).slice 8 9)] ++
        (blank (((Load.markOf (Source.ofText text) packageClause).blankBetween
          (Load.itemNode (Source.ofText text) (Load.decl (Source.ofText text))
            ⟨"source_file", d⟩).mark).getD false) ++ strokes) := by
  have horder : (Load.topItems root).Pairwise fun a b => a.node.start ≤ b.node.start := by
    rw [hitems]
    exact List.pairwise_pair.mpr (Nat.zero_le _)
  have hkinds : ∀ i ∈ Load.topItems root, i.node.kind ≠ "comment" := by
    rw [hitems]
    simpa [packageClause, branch, Cst.kind, Cst.info] using hplain
  rw [Load.strokes_build_of_plain horder hkinds, hitems, List.map_cons, List.map_singleton, spread, spread,
    spread, hdecl, List.append_nil]
  rfl

theorem printedAs_bare : Load.PrintedAs bareTree bareText bentText where
  spaced := by decide +kernel
  nul := by decide +kernel
  leaves := by decide +kernel
  prints := ⟨_, Load.ofCst_eq_ok (by decide) ⟨packageClause, List.mem_cons_self, rfl⟩, by
    rw [SourceFile.render, strokes_bare]
    rfl⟩

theorem printedAs_nameless : Load.PrintedAs namelessTree namelessText (utf8 "package \n") where
  spaced := by decide +kernel
  nul := by decide +kernel
  leaves := by decide +kernel
  prints := by
    have hitems : Load.topItems namelessTree = [⟨"source_file", namelessClause⟩] := rfl
    have hpackage := Load.print_package namelessText (i := ⟨"source_file", namelessClause⟩) rfl
    refine ⟨_, Load.ofCst_eq_ok (by decide) ⟨namelessClause, List.mem_cons_self, rfl⟩, ?_⟩
    rw [SourceFile.render, Load.strokes_build_of_plain (by decide) (by decide), hitems,
      List.map_singleton, spread, spread, hpackage]
    rfl

theorem printedAs_pathless : Load.PrintedAs pathlessTree pathlessText (utf8 "package p\n\nimport x \n") where
  spaced := by decide +kernel
  nul := by decide +kernel
  leaves := by decide +kernel
  prints := by
    have himport := Load.print_import pathlessText (i := ⟨"source_file", pathlessImport⟩) rfl rfl rfl
      (by decide)
    refine ⟨_, Load.ofCst_eq_ok (by decide) ⟨packageClause, List.mem_cons_self, rfl⟩, ?_⟩
    rw [SourceFile.render, strokes_clause_and rfl (by decide) himport]
    rfl

theorem printedAs_hidden : Load.PrintedAs hiddenTree hiddenText (utf8 "package p\n\n\nz \x7b\x7d\n") where
  spaced := by decide +kernel
  nul := by decide +kernel
  leaves := by decide +kernel
  prints := by
    have hfunction := Load.print_function hiddenText (i := ⟨"source_file", hiddenFunction⟩) (by decide) rfl
    rw [Load.sortedBlocks_eq_map _ (by decide) (by decide)] at hfunction
    refine ⟨_, Load.ofCst_eq_ok (by decide) ⟨packageClause, List.mem_cons_self, rfl⟩, ?_⟩
    rw [SourceFile.render, strokes_clause_and rfl (by decide) hfunction]
    rfl

end Sample

/-- Rows and tokens in order are not enough: an empty row is missing in front of a function without a token
before its body, and there is one too many if the tokens in front of the body are not its first ones. A line
ends with white space if the name of the package is empty, or the path of an import. -/
theorem Load.loose_trees_misprinted :
    (PrintedAs Sample.bareTree Sample.bareText Sample.bentText ∧
      (Sample.packageClause.endRow (Source.ofText Sample.bareText) + 1 <
        Sample.bareFunction.startRow (Source.ofText Sample.bareText)) ∧
      Sample.bentText.splitLines = [utf8 "package p", utf8 " \x7b\x7d", []]) ∧
    (PrintedAs Sample.hiddenTree Sample.hiddenText (utf8 "package p\n\n\nz \x7b\x7d\n") ∧
      [[], []] <:+: (utf8 "package p\n\n\nz \x7b\x7d\n").splitLines) ∧
    (PrintedAs Sample.namelessTree Sample.namelessText (utf8 "package \n") ∧
      ∃ l ∈ (utf8 "package \n").splitLines, ¬ l.Trimmed) ∧
    (PrintedAs Sample.pathlessTree Sample.pathlessText (utf8 "package p\n\nimport x \n") ∧
      ∃ l ∈ (utf8 "package p\n\nimport x \n").splitLines, ¬ l.Trimmed) :=
  ⟨⟨Sample.printedAs_bare, by decide +kernel, by decide +kernel⟩,
    ⟨Sample.printedAs_hidden, by decide +kernel⟩, ⟨Sample.printedAs_nameless, by decide +kernel⟩,
    Sample.printedAs_pathless, by decide +kernel⟩

end Stopwatch
