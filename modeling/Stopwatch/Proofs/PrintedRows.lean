import Mathlib
import Stopwatch.Proofs.TidyRows

/-!
# The rows of a tree

`SourceFile.rows` lays a file out in rows, each of which knows whether it starts inside a token of the source.
This is what is printed, and the rows are tidy if the texts in the tree are: one rule for each way in which
strokes are put together, and one case for each sort of node.

* `Print.Rowed`: strokes that are carried out as given rows, which are tidy.
* `Node.NeatItem`, `Node.NeatDecl`: nodes with tidy fragments, and with texts on one row elsewhere.
* `SourceFile.rowed_strokes`: the rows of a file of such nodes.
* `Print.stackRows_append`: where two nodes meet.
-/

namespace Stopwatch

open Text

namespace Print

/-! ## Nodes one below the other -/

/-- The strokes of nodes one below the other; `unplaced` tells whether an empty row parts neighbours that did
not both come from the source. -/
def stack (print : Node → List Stroke) (unplaced : Bool) : Option Mark → List Node → List Stroke
  | _, [] => []
  | before, n :: ns =>
    blank (before.any fun m => (m.blankBetween n.mark).getD unplaced) ++ print n ++
      stack print unplaced (some n.mark) ns

/-- The rows of nodes one below the other. -/
def stackRows (rows : Node → List Row) (unplaced : Bool) : Option Mark → List Node → List Row
  | _, [] => []
  | before, n :: ns =>
    Row.gap (before.any fun m => (m.blankBetween n.mark).getD unplaced) ++ rows n ++
      stackRows rows unplaced (some n.mark) ns

variable {print : Node → List Stroke} {rows : Node → List Row} {unplaced : Bool}

theorem stack_false (before : Option Mark) (ns : List Node) :
    stack print false before ns = spread print before ns := by
  induction ns generalizing before with
  | nil => rfl
  | cons n ns ih =>
    rw [stack, spread, ih]
    cases before <;> rfl

theorem sequence_eq_stack (depth : Int) (before : Option Mark) (ns : List Node) :
    sequence depth before ns = stack (stmt depth) false before ns := by
  rw [sequence_eq_spread, stack_false]

theorem decls_eq_stack (before : Option Mark) (ns : List Node) :
    decls before ns = stack decl true before ns := by
  induction ns generalizing before with
  | nil => rfl
  | cons n ns ih => rw [decls, stack, ih]

theorem stack_some (m : Mark) (n : Node) (ns : List Node) :
    stack print unplaced (some m) (n :: ns) =
      blank ((m.blankBetween n.mark).getD unplaced) ++ stack print unplaced none (n :: ns) := by
  rw [stack, stack, List.append_assoc, List.append_assoc]
  rfl

theorem stackRows_some (m : Mark) (n : Node) (ns : List Node) :
    stackRows rows unplaced (some m) (n :: ns) =
      Row.gap ((m.blankBetween n.mark).getD unplaced) ++ stackRows rows unplaced none (n :: ns) := by
  rw [stackRows, stackRows, List.append_assoc, List.append_assoc]
  rfl

/-- **Where two nodes meet**, the rows above and below are those of the two parts of the list. -/
theorem stackRows_append (before : List Node) (x y : Node) (after : List Node) :
    stackRows rows unplaced none (before ++ x :: y :: after) =
      stackRows rows unplaced none (before ++ [x]) ++
        (Row.gap ((x.mark.blankBetween y.mark).getD unplaced) ++
          stackRows rows unplaced none (y :: after)) := by
  suffices h : ∀ prior, stackRows rows unplaced prior (before ++ x :: y :: after) =
      stackRows rows unplaced prior (before ++ [x]) ++
        (Row.gap ((x.mark.blankBetween y.mark).getD unplaced) ++
          stackRows rows unplaced none (y :: after)) from h none
  induction before with
  | nil =>
    intro prior
    have hnil : stackRows rows unplaced (some x.mark) [] = [] := rfl
    rw [List.nil_append, List.nil_append, stackRows, stackRows_some, stackRows.eq_2 _ _ prior, hnil,
      List.append_nil]
  | cons n before ih =>
    intro prior
    rw [List.cons_append, List.cons_append, stackRows, stackRows, ih]
    simp only [List.append_assoc]

/-! ## The rows of nodes -/

/-- The rows of a statement, or of an entry of an import declaration. -/
def stmtRows (indent : Text) : Node → List Row
  | .rawStmt m _ f | .comment m f => Row.extend (f.rows indent 1) m.comment
  | .importSpec m s => [⟨false, Stroke.indented indent 1 (importSpec s) ++ m.comment⟩]
  | n => (Stroke.lines indent (stmt 1 n)).map (⟨false, ·⟩)

/-- The rows of an import declaration. -/
def importRows (indent : Text) (specs : List Node) (grouped : Bool) : List Row :=
  match grouped, specs with
  | false, [.importSpec m s] => [⟨false, utf8 "import " ++ importSpec s ++ m.comment⟩]
  | _, _ =>
    [⟨false, utf8 "import ("⟩] ++
      (stackRows (stmtRows indent) false none specs ++ [⟨false, utf8 ")"⟩])

/-- The rows of a function. -/
def funcRows (indent : Text) (h : FuncHead) : Option (Body Node) → List Row
  | none => h.signature.rows indent 0
  | some b =>
    if b.stmts.isEmpty then Row.extend (h.signature.rows indent 0) (utf8 " \x7b\x7d")
    else Row.extend (h.signature.rows indent 0) (utf8 " \x7b") ++
      (stackRows (stmtRows indent) false none b.stmts ++ [⟨false, utf8 "\x7d"⟩])

/-- The rows of a declaration. -/
def declRows (indent : Text) : Node → List Row
  | .packageClause m n => [⟨false, utf8 "package " ++ n ++ m.comment⟩]
  | .importDecl m specs grouped => Row.extend (importRows indent specs grouped) m.comment
  | .funcDecl m h b => Row.extend (funcRows indent h b) m.comment
  | .rawDecl m _ f | .comment m f => Row.extend (f.rows indent 0) m.comment
  | n => (Stroke.lines indent (decl n)).map (⟨false, ·⟩)

/-! ## Strokes and their rows -/

/-- The strokes stand on their own and are carried out as the given rows, which are tidy. -/
structure Rowed (indent : Text) (strokes : List Stroke) (rows : List Row) : Prop where
  opens : Stroke.Opens strokes
  lines : Stroke.lines indent strokes = rows.map Row.text
  tidy : Row.Tidy rows

namespace Rowed

variable {indent : Text} {a b : List Stroke} {ra rb : List Row}

theorem nil (indent : Text) : Rowed indent [] [] := ⟨Stroke.opens_nil, rfl, Row.tidy_nil⟩

theorem ne_nil (ha : Rowed indent a ra) (hne : ra ≠ []) : a ≠ [] := by
  rintro rfl
  exact hne (List.map_eq_nil_iff.mp ha.lines.symm)

theorem append (ha : Rowed indent a ra) (hb : Rowed indent b rb) : Rowed indent (a ++ b) (ra ++ rb) where
  opens := ha.opens.append hb.opens
  lines := by rw [Stroke.lines_append ha.opens hb.opens, ha.lines, hb.lines, List.map_append]
  tidy := ha.tidy.append hb.tidy

theorem parted (ha : Rowed indent a ra) (hb : Rowed indent b rb) (hane : ra ≠ []) (hbne : rb ≠ [])
    (g : Bool) : Rowed indent (a ++ (blank g ++ b)) (ra ++ (Row.gap g ++ rb)) where
  opens := ha.opens.append ((opens_blank g).append hb.opens)
  lines := by
    have hgap : Stroke.lines indent (blank g) = (Row.gap g).map Row.text := by cases g <;> rfl
    rw [Stroke.lines_append ha.opens ((opens_blank g).append hb.opens),
      Stroke.lines_append (opens_blank g) hb.opens, ha.lines, hb.lines, hgap, List.map_append,
      List.map_append]
  tidy := ha.tidy.parted hb.tidy hane hbne g

theorem extend (ha : Rowed indent a ra) (hne : ra ≠ []) {t : Text} (ht : t.OneRow) :
    Rowed indent (a ++ [.extend t]) (Row.extend ra t) where
  opens := ha.opens.append_of_ne_nil (ha.ne_nil hne) (by simp)
  lines := by
    have hlines := ha.lines
    obtain ⟨init, r, rfl⟩ := (List.eq_nil_or_concat ra).resolve_left hne
    rw [List.concat_eq_append] at hlines ⊢
    rw [List.map_append, List.map_singleton] at hlines
    rw [Row.extend_concat, Stroke.lines_extend ha.opens hlines, List.map_append, List.map_singleton]
  tidy := ha.tidy.extend hne ht

/-- The comment behind a node. -/
theorem trailing (ha : Rowed indent a ra) (hne : ra ≠ []) {m : Mark} (ht : m.comment.OneRow) :
    Rowed indent (a ++ Print.trailing m) (Row.extend ra m.comment) where
  opens := ha.opens.append_of_ne_nil (ha.ne_nil hne) (Stroke.sound_trailing m)
  lines := by
    have hlines := ha.lines
    obtain ⟨init, r, rfl⟩ := (List.eq_nil_or_concat ra).resolve_left hne
    rw [List.concat_eq_append] at hlines ⊢
    rw [List.map_append, List.map_singleton] at hlines
    rw [Row.extend_concat, Stroke.lines_trailing ha.opens hlines, List.map_append, List.map_singleton]
  tidy := ha.tidy.extend hne ht

theorem line (hindent : newline ∉ indent) (depth : Int) {t : Text} (hne : t ≠ []) (ht : t.OneRow) :
    Rowed indent [.line depth t] [⟨false, Stroke.indented indent depth t⟩] where
  opens := opens_line depth t
  lines := rfl
  tidy := by
    rw [Stroke.indented, if_neg hne]
    exact Row.tidy_singleton (List.append_ne_nil_of_right_ne_nil _ hne)
      (ht.append hne fun hmem => hindent (mem_of_mem_repeated hmem))

/-- A line without indentation. -/
theorem topLine (hindent : newline ∉ indent) {t : Text} (hne : t ≠ []) (ht : t.OneRow) :
    Rowed indent [.line 0 t] [⟨false, t⟩] := by
  have hline := line hindent 0 hne ht
  rwa [Stroke.indented, if_neg hne] at hline

theorem fragment (hindent : newline ∉ indent) (depth : Int) {f : Fragment}
    (hf : Row.Tidy (f.map FragmentLine.row)) :
    Rowed indent (Print.fragment depth f) (f.rows indent depth) where
  opens := opens_fragment depth f
  lines := by rw [lines_fragment, Fragment.map_text_rows]
  tidy := hf.printed hindent depth

theorem of_lines (ha : Stroke.Opens a)
    (h : ∀ l ∈ Stroke.lines indent a, l ≠ [] ∧ l.OneRow) :
    Rowed indent a ((Stroke.lines indent a).map (⟨false, ·⟩)) where
  opens := ha
  lines := by
    rw [List.map_map]
    exact (List.map_id _).symm
  tidy := Row.tidy_lines h

/-- **Nodes one below the other**, by induction on the list: each meets the rows below it. -/
theorem stack {ns : List Node} (h : ∀ n ∈ ns, Rowed indent (print n) (rows n) ∧ rows n ≠ []) :
    Rowed indent (stack print unplaced none ns) (stackRows rows unplaced none ns) ∧
      (ns ≠ [] → stackRows rows unplaced none ns ≠ []) := by
  induction ns with
  | nil => exact ⟨nil indent, fun hne => absurd rfl hne⟩
  | cons n ns ih =>
    obtain ⟨hn, hne⟩ := h n List.mem_cons_self
    obtain ⟨hns, hnsne⟩ := ih fun k hk => h k (List.mem_cons_of_mem n hk)
    have hrows : stackRows rows unplaced none (n :: ns) =
        rows n ++ stackRows rows unplaced (some n.mark) ns := rfl
    have hstrokes : Print.stack print unplaced none (n :: ns) =
        print n ++ Print.stack print unplaced (some n.mark) ns := rfl
    refine ⟨?_, fun _ => by simp [hrows, hne]⟩
    rw [hrows, hstrokes]
    cases ns with
    | nil => exact hn.append (nil indent)
    | cons k ns =>
      rw [stack_some, stackRows_some]
      exact hn.parted hns hne (hnsne (by simp)) _

end Rowed

end Print

/-! ## Neat nodes -/

/-- The lines of a fragment are tidy, and there are some. -/
structure Fragment.Neat (f : Fragment) : Prop where
  ne_nil : f ≠ []
  tidy : Row.Tidy (f.map FragmentLine.row)

/-- An import entry stands on one row and ends with its path. -/
structure ImportSpec.Neat (s : ImportSpec) : Prop where
  ne_nil : s.literal ≠ []
  literal : s.literal.OneRow
  name : ∀ n ∈ s.name, newline ∉ n

/-- A statement or an import entry with neat texts. -/
inductive Node.NeatItem : Node → Prop
  | raw {m : Mark} (kind : String) {f : Fragment} (hm : m.comment.OneRow) (hf : f.Neat) :
      NeatItem (.rawStmt m kind f)
  | comment {m : Mark} {f : Fragment} (hm : m.comment.OneRow) (hf : f.Neat) : NeatItem (.comment m f)
  | entry {m : Mark} {s : ImportSpec} (hm : m.comment.OneRow) (hs : s.Neat) : NeatItem (.importSpec m s)
  | start (template name : Text) {identifier : Text} (hidentifier : newline ∉ identifier) :
      NeatItem (Pair.build template name identifier).start
  | report (template name : Text) {identifier : Text} (hidentifier : newline ∉ identifier) :
      NeatItem (Pair.build template name identifier).report

/-- A declaration with neat texts. -/
inductive Node.NeatDecl : Node → Prop
  | package {m : Mark} {n : Text} (hm : m.comment.OneRow) (hne : n ≠ []) (hn : n.OneRow) :
      NeatDecl (.packageClause m n)
  | imports {m : Mark} {specs : List Node} (grouped : Bool) (hm : m.comment.OneRow)
      (hspecs : ∀ s ∈ specs, s.NeatItem) : NeatDecl (.importDecl m specs grouped)
  | bodyless {m : Mark} {h : FuncHead} (hm : m.comment.OneRow) (hsignature : h.signature.Neat) :
      NeatDecl (.funcDecl m h none)
  | function {m : Mark} {h : FuncHead} {b : Body Node} (hm : m.comment.OneRow) (hsignature : h.signature.Neat)
      (hstmts : ∀ s ∈ b.stmts, s.NeatItem) : NeatDecl (.funcDecl m h (some b))
  | raw {m : Mark} (kind : String) {f : Fragment} (hm : m.comment.OneRow) (hf : f.Neat) :
      NeatDecl (.rawDecl m kind f)
  | comment {m : Mark} {f : Fragment} (hm : m.comment.OneRow) (hf : f.Neat) : NeatDecl (.comment m f)

theorem Fragment.Neat.rows_ne_nil {f : Fragment} (h : f.Neat) (indent : Text) (depth : Int) :
    f.rows indent depth ≠ [] := by simpa [Fragment.rows] using h.ne_nil

namespace ImportSpec.Neat

variable {s : ImportSpec}

theorem importSpec_ne_nil (h : s.Neat) : Print.importSpec s ≠ [] := by
  unfold Print.importSpec
  split
  · simp
  · exact h.ne_nil

theorem oneRow_importSpec (h : s.Neat) : (Print.importSpec s).OneRow := by
  unfold Print.importSpec
  split
  · next n hname =>
    rw [List.append_cons]
    refine h.literal.append h.ne_nil fun hmem => ?_
    rcases List.mem_append.mp hmem with hmem | hmem
    · exact h.name n hname hmem
    · exact absurd hmem (by decide)
  · exact h.literal

/-- An entry that is added. -/
theorem newSpec (path : Text) : (Imports.newSpec path).Neat where
  ne_nil := by simp [Imports.newSpec, Quoted.encode]
  literal := by
    refine ⟨fun b hb => ?_, Pair.newline_notMem_encode path⟩
    have hquote : b = Quoted.quote := by
      simpa [Imports.newSpec, Quoted.encode, List.getLast?_cons, List.getLast?_append, eq_comm] using hb
    rw [hquote]
    rfl
  name n hn := absurd hn (by simp [Imports.newSpec])

end ImportSpec.Neat

/-- The lines of a pair. -/
theorem Pair.neat_lines {indent identifier : Text} (hindent : newline ∉ indent)
    (hidentifier : newline ∉ identifier) (template name : Text) :
    ∀ l ∈ lines indent template name identifier, l ≠ [] ∧ l.OneRow := by
  intro l hl
  have hclean := newline_notMem_lines hindent hidentifier template name l hl
  obtain ⟨front, back, rfl, hne, ht⟩ : ∃ front back, l = front ++ back ∧ back ≠ [] ∧ Trimmed back := by
    simp only [lines, List.mem_cons, List.not_mem_nil, or_false] at hl
    rcases hl with rfl | rfl | rfl | rfl <;>
      exact ⟨_, _, rfl, by decide +kernel, by decide +kernel⟩
  exact ⟨List.append_ne_nil_of_right_ne_nil _ hne, ht.append hne front, hclean⟩

section Rowed

open Print

variable {indent : Text} (hindent : newline ∉ indent)

include hindent

/-- The two statements of a pair. -/
theorem Pair.rowed_stmts {identifier : Text} (hidentifier : newline ∉ identifier) (template name : Text) :
    ∀ n ∈ (build template name identifier).stmts,
      Rowed indent (stmt 1 n) ((Stroke.lines indent (stmt 1 n)).map (⟨false, ·⟩)) ∧
        (Stroke.lines indent (stmt 1 n)).map (Row.mk false) ≠ [] := by
  have hneat := neat_lines hindent hidentifier template name
  have hstart : Stroke.Opens (stmt 1 (build template name identifier).start) := by
    rw [stmt_start]
    exact opens_line 1 _
  have hreport : Stroke.Opens (stmt 1 (build template name identifier).report) := by
    rw [stmt_report]
    exact ⟨fun e h => by simp at h, fun t rest h => by simp at h⟩
  have hstrokes : strokes template name identifier =
      stmt 1 (build template name identifier).start ++ stmt 1 (build template name identifier).report := by
    rw [stmt_start, stmt_report]
    rfl
  rw [← lines_strokes, hstrokes, Stroke.lines_append hstart hreport, List.forall_mem_append] at hneat
  intro n hn
  simp only [stmts, List.mem_cons, List.not_mem_nil, or_false] at hn
  rcases hn with rfl | rfl
  · refine ⟨.of_lines hstart hneat.1, ?_⟩
    simpa using Stroke.lines_ne_nil hstart (by simp [stmt_start]) indent
  · refine ⟨.of_lines hreport hneat.2, ?_⟩
    simpa using Stroke.lines_ne_nil hreport (by simp [stmt_report]) indent

/-- **Statements and import entries.** -/
theorem Node.NeatItem.rowed {n : Node} (h : n.NeatItem) :
    Rowed indent (stmt 1 n) (stmtRows indent n) ∧ stmtRows indent n ≠ [] := by
  cases h with
  | raw kind hm hf =>
    have hne := hf.rows_ne_nil indent 1
    exact ⟨(Rowed.fragment hindent 1 hf.tidy).trailing hne hm, Row.extend_ne_nil hne _⟩
  | comment hm hf =>
    have hne := hf.rows_ne_nil indent 1
    exact ⟨(Rowed.fragment hindent 1 hf.tidy).trailing hne hm, Row.extend_ne_nil hne _⟩
  | entry hm hs =>
    have hline := Rowed.line hindent 1 hs.importSpec_ne_nil hs.oneRow_importSpec
    exact ⟨hline.trailing (by simp) hm, by simp [stmtRows]⟩
  | start template name hidentifier =>
    exact Pair.rowed_stmts hindent hidentifier template name _ (by simp [Pair.stmts])
  | report template name hidentifier =>
    exact Pair.rowed_stmts hindent hidentifier template name _ (by simp [Pair.stmts])

/-- The items of a list, one below the other. -/
theorem Print.rowed_sequence {ns : List Node} (h : ∀ n ∈ ns, n.NeatItem) :
    Rowed indent (sequence 1 none ns) (stackRows (stmtRows indent) false none ns) := by
  rw [sequence_eq_stack]
  exact (Rowed.stack fun n hn => (h n hn).rowed hindent).1

omit hindent in
/-- An import declaration is a single entry behind the keyword, or a list in parentheses. -/
theorem Print.importDecl_cases (indent : Text) (specs : List Node) (grouped : Bool) :
    (∃ m s, specs = [.importSpec m s] ∧
      importDecl specs grouped = .line 0 (utf8 "import " ++ importSpec s) :: trailing m ∧
      importRows indent specs grouped = [⟨false, utf8 "import " ++ importSpec s ++ m.comment⟩]) ∨
    (importDecl specs grouped =
        [.line 0 (utf8 "import (")] ++ (sequence 1 none specs ++ [.line 0 (utf8 ")")]) ∧
      importRows indent specs grouped = [⟨false, utf8 "import ("⟩] ++
        (stackRows (stmtRows indent) false none specs ++ [⟨false, utf8 ")"⟩])) := by
  unfold importDecl
  split
  · exact .inl ⟨_, _, rfl, rfl, rfl⟩
  · next hother =>
    refine .inr ⟨rfl, ?_⟩
    unfold importRows
    split
    · exact absurd rfl (hother _ _ rfl)
    · rfl

theorem Print.rowed_importDecl {specs : List Node} (grouped : Bool) (h : ∀ s ∈ specs, s.NeatItem) :
    Rowed indent (importDecl specs grouped) (importRows indent specs grouped) ∧
      importRows indent specs grouped ≠ [] := by
  obtain ⟨m, s, rfl, hstrokes, hrows⟩ | ⟨hstrokes, hrows⟩ := importDecl_cases indent specs grouped
  · obtain ⟨hm, hs⟩ : m.comment.OneRow ∧ s.Neat := by
      cases h _ List.mem_cons_self with
      | entry hm hs => exact ⟨hm, hs⟩
    have hne := hs.importSpec_ne_nil
    have hkeyword : newline ∉ utf8 "import " := by decide +kernel
    have hline := Rowed.topLine hindent (List.append_ne_nil_of_right_ne_nil _ hne)
      (hs.oneRow_importSpec.append hne hkeyword)
    rw [hstrokes, hrows]
    exact ⟨hline.trailing (by simp) hm, by simp⟩
  · have hopening : Rowed indent [.line 0 (utf8 "import (")] [⟨false, utf8 "import ("⟩] :=
      .topLine hindent (by decide +kernel) ⟨by decide +kernel, by decide +kernel⟩
    have hclosing : Rowed indent [.line 0 (utf8 ")")] [⟨false, utf8 ")"⟩] :=
      .topLine hindent (by decide +kernel) ⟨by decide +kernel, by decide +kernel⟩
    rw [hstrokes, hrows]
    exact ⟨hopening.append ((rowed_sequence hindent h).append hclosing), by simp⟩

/-- A function without the comment behind it. -/
theorem Print.rowed_function {head : FuncHead} {b : Body Node} (hsignature : head.signature.Neat)
    (h : ∀ s ∈ b.stmts, s.NeatItem) :
    Rowed indent (fragment 0 head.signature ++ body b) (funcRows indent head (some b)) ∧
      funcRows indent head (some b) ≠ [] := by
  have hne := hsignature.rows_ne_nil indent 0
  have hfragment := Rowed.fragment hindent 0 hsignature.tidy
  have hfull : utf8 " " ++ utf8 "\x7b" = utf8 " \x7b" := by decide +kernel
  have hempty : utf8 " " ++ utf8 "\x7b\x7d" = utf8 " \x7b\x7d" := by decide +kernel
  cases hstmts : b.stmts.isEmpty with
  | true =>
    rw [body, braces, funcRows, hstmts, if_pos rfl, if_pos rfl, hempty]
    exact ⟨hfragment.extend hne ⟨by decide +kernel, by decide +kernel⟩, Row.extend_ne_nil hne _⟩
  | false =>
    have hbrace := hfragment.extend hne (t := utf8 " \x7b") ⟨by decide +kernel, by decide +kernel⟩
    have hclosing : Rowed indent [.line 0 (utf8 "\x7d")] [⟨false, utf8 "\x7d"⟩] :=
      .topLine hindent (by decide +kernel) ⟨by decide +kernel, by decide +kernel⟩
    rw [body, braces, funcRows, hstmts, if_neg (by simp), if_neg (by simp), hfull, ← List.singleton_append,
      ← List.append_assoc]
    exact ⟨hbrace.append ((rowed_sequence hindent h).append hclosing),
      List.append_ne_nil_of_left_ne_nil (Row.extend_ne_nil hne _) _⟩

/-- **Declarations.** -/
theorem Node.NeatDecl.rowed {n : Node} (h : n.NeatDecl) :
    Rowed indent (decl n) (declRows indent n) ∧ declRows indent n ≠ [] := by
  -- The comment behind a declaration comes last, whatever is in front of it.
  have htrailing : ∀ {m : Mark} {a : List Stroke} {rows : List Row}, m.comment.OneRow →
      Rowed indent a rows → rows ≠ [] → Rowed indent (a ++ trailing m) (Row.extend rows m.comment) ∧
        Row.extend rows m.comment ≠ [] :=
    fun hm ha hne => ⟨ha.trailing hne hm, Row.extend_ne_nil hne _⟩
  cases h with
  | package hm hne hn =>
    have hkeyword : newline ∉ utf8 "package " := by decide +kernel
    exact htrailing hm (Rowed.topLine hindent (List.append_ne_nil_of_right_ne_nil _ hne)
      (hn.append hne hkeyword)) (by simp)
  | imports grouped hm hspecs =>
    obtain ⟨hrowed, hne⟩ := rowed_importDecl hindent grouped hspecs
    exact htrailing hm hrowed hne
  | bodyless hm hsignature =>
    exact htrailing hm (Rowed.fragment hindent 0 hsignature.tidy) (hsignature.rows_ne_nil indent 0)
  | function hm hsignature hstmts =>
    obtain ⟨hrowed, hne⟩ := rowed_function hindent hsignature hstmts
    exact htrailing hm hrowed hne
  | raw kind hm hf => exact htrailing hm (Rowed.fragment hindent 0 hf.tidy) (hf.rows_ne_nil indent 0)
  | comment hm hf => exact htrailing hm (Rowed.fragment hindent 0 hf.tidy) (hf.rows_ne_nil indent 0)

end Rowed

/-! ## Files -/

/-- The rows a file is printed as. -/
def SourceFile.rows (indent : Text) (f : SourceFile) : List Row :=
  Print.stackRows (Print.declRows indent) true none f.decls

/-- **A file of neat declarations is printed as its rows, and they are tidy.** -/
theorem SourceFile.rowed_strokes {indent : Text} (hindent : newline ∉ indent) {f : SourceFile}
    (h : ∀ n ∈ f.decls, n.NeatDecl) :
    Print.Rowed indent f.strokes (f.rows indent) ∧ (f.decls ≠ [] → f.rows indent ≠ []) := by
  rw [strokes, Print.decls_eq_stack]
  exact Print.Rowed.stack fun n hn => (h n hn).rowed hindent

end Stopwatch
