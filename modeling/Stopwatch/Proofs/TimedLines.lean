import Mathlib
import Stopwatch.Proofs.PairLines
import Stopwatch.Proofs.Weaving

/-!
# Declarations before and after timing

Each declaration starts with a line of its own. So the lines of a file are those of its declarations one
below the other, and a pair in front of a body changes the lines of that one declaration only.

Results:
* `DeclTimed`: the lines of one declaration before and after, and `DeclTimed.of_instrument`.
* `LinesTimed`: those of a list of declarations, and `LinesTimed.of_instrumentAll`.
-/

namespace Stopwatch

open Text

/-! ## Timing loaded declarations -/

/-- Whether a declaration is a function to be timed. -/
def Node.isTimed (skip : Text) : Node → Bool
  | funcDecl m h b => Function.isCandidate skip ⟨m, h, b⟩
  | _ => false

theorem instrument_of_isStatement (plan : Plan) {n : Node}
    (h : n.isStatement = true ∨ n.isEntry = true) (p : Progress) : n.instrument plan p = (n, p) := by
  cases n with
  | rawStmt m k f => rfl
  | comment m f => rfl
  | importSpec m s => rfl
  | _ => simp [Node.isStatement, Node.isEntry] at h

theorem instrumentAll_of_isStatement (plan : Plan) {ns : List Node}
    (h : ∀ n ∈ ns, n.isStatement = true ∨ n.isEntry = true) (p : Progress) :
    instrumentAll plan ns p = (ns, p) := by
  induction ns with
  | nil => rfl
  | cons n ns ih =>
    rw [instrumentAll, instrument_of_isStatement plan (h n List.mem_cons_self)]
    simp only [ih fun k hk => h k (List.mem_cons_of_mem n hk)]

theorem instrument_of_not_isTimed (plan : Plan) {n : Node} (hn : n.isDeclaration = true)
    (h : n.isTimed plan.skipPrefix = false) (p : Progress) : n.instrument plan p = (n, p) := by
  cases n with
  | packageClause m name => rfl
  | rawDecl m k f => rfl
  | comment m f => rfl
  | importDecl m entries grouped =>
    have hall := instrumentAll_of_isStatement plan
      (fun k hk => Or.inr (List.all_eq_true.mp hn k hk)) p
    simp only [Node.instrument, hall]
  | funcDecl m head b =>
    cases b with
    | none => rfl
    | some b =>
      have hskipped : head.isSkipped plan.skipPrefix = true := by
        simpa [Node.isTimed, Function.isCandidate] using h
      have hall := instrumentAll_of_isStatement plan
        (fun k hk => Or.inl (List.all_eq_true.mp hn k hk)) p
      simp only [Node.instrument, hskipped, if_true, hall]
  | _ => simp [Node.isDeclaration] at hn

theorem instrument_of_isTimed (plan : Plan) {m : Mark} {head : FuncHead} {b : Body Node}
    (hn : (Node.funcDecl m head (some b)).isDeclaration = true)
    (h : (Node.funcDecl m head (some b)).isTimed plan.skipPrefix = true) (p : Progress) :
    (Node.funcDecl m head (some b)).instrument plan p =
      (.funcDecl m head (some ⟨b.mark, (plan.time m head p).1.stmts ++ b.stmts⟩),
        (plan.time m head p).2) := by
  have hskipped : head.isSkipped plan.skipPrefix = false := by
    simpa [Node.isTimed, Function.isCandidate] using h
  have hall := instrumentAll_of_isStatement plan
    (fun k hk => Or.inl (List.all_eq_true.mp hn k hk)) (plan.time m head p).2
  simp only [Node.instrument, hskipped, Bool.false_eq_true, if_false, hall]

theorem exists_of_isTimed {skip : Text} {n : Node} (h : n.isTimed skip = true) :
    ∃ m head b, n = .funcDecl m head (some b) := by
  cases n with
  | funcDecl m head b =>
    cases b with
    | none => simp [Node.isTimed, Function.isCandidate] at h
    | some b => exact ⟨m, head, b, rfl⟩
  | _ => simp [Node.isTimed] at h

/-! ## Lines before and after -/

/-- The lines of strokes that follow no others, as lines of the text. -/
def Stroke.textLines (indent : Text) (strokes : List Stroke) : List Text :=
  (lines indent strokes).flatMap splitLines

theorem Stroke.textLines_append {a b : List Stroke} (ha : Opens a) (hb : Opens b) (indent : Text) :
    textLines indent (a ++ b) = textLines indent a ++ textLines indent b := by
  rw [textLines, lines_append ha hb, List.flatMap_append]
  rfl

theorem Stroke.textLines_eq {indent : Text} {strokes : List Stroke} {ls : List Text}
    (h : lines indent strokes = ls) (hclean : ∀ l ∈ ls, newline ∉ l) : textLines indent strokes = ls := by
  rw [textLines, h, flatMap_splitLines hclean]

/-- The lines of a declaration. -/
def Print.declLines (indent : Text) (n : Node) : List Text :=
  Stroke.textLines indent (Print.decl n)

/-- The lines of a declaration before and after the transformation, and the functions timed. -/
inductive DeclTimed (s : Settings) : Node → List TimedFunction → List Text → List Text → Prop
  /-- A declaration that is not timed stays as it is. -/
  | other {n : Node} (hn : n.isTimed (utf8 s.skipPrefix) = false) :
      DeclTimed s n [] (Print.declLines s.indent n) (Print.declLines s.indent n)
  /-- A function with statements gets the lines of its pair below the line that ends with the opening
  brace, which is the last line of the signature. -/
  | full {m : Mark} {head : FuncHead} {b : Body Node} (identifier : Text) (init : List Text)
      (last : Text) (rest : List Text)
      (hn : (Node.funcDecl m head (some b)).isTimed (utf8 s.skipPrefix) = true) (hb : b.stmts ≠ [])
      (hsignature : head.signature.printed s.indent 0 = init ++ [last])
      (hlines : Print.declLines s.indent (.funcDecl m head (some b)) =
        init ++ [last ++ utf8 " \x7b"] ++ rest) :
      DeclTimed s (.funcDecl m head (some b)) [⟨head.qualifiedName, identifier, m.line?⟩]
        (init ++ [last ++ utf8 " \x7b"] ++ rest)
        (init ++ [last ++ utf8 " \x7b"] ++
          Pair.lines s.indent (utf8 s.reportTemplate) head.qualifiedName identifier ++ rest)
  /-- A function without statements gets them between its braces; the comment behind it follows the
  closing brace. -/
  | empty {m : Mark} {head : FuncHead} {b : Body Node} (identifier : Text) (init : List Text)
      (last : Text) (hn : (Node.funcDecl m head (some b)).isTimed (utf8 s.skipPrefix) = true)
      (hb : b.stmts = []) (hsignature : head.signature.printed s.indent 0 = init ++ [last])
      (hlines : Print.declLines s.indent (.funcDecl m head (some b)) =
        init ++ [last ++ utf8 " \x7b\x7d" ++ m.comment]) :
      DeclTimed s (.funcDecl m head (some b)) [⟨head.qualifiedName, identifier, m.line?⟩]
        (init ++ [last ++ utf8 " \x7b\x7d" ++ m.comment])
        (init ++ [last ++ utf8 " \x7b"] ++
          Pair.lines s.indent (utf8 s.reportTemplate) head.qualifiedName identifier ++
          [utf8 "\x7d" ++ m.comment])

/-- The lines of declarations before and after the transformation, with the same empty lines between them,
and the functions timed. -/
inductive LinesTimed (s : Settings) : List Node → List TimedFunction → List Text → List Text → Prop
  | nil : LinesTimed s [] [] [] []
  | cons {n : Node} {ns : List Node} {fs fs' : List TimedFunction} {old new olds news : List Text}
      (gap : List Text) (hgap : gap = [] ∨ gap = [[]]) (first : DeclTimed s n fs old new)
      (rest : LinesTimed s ns fs' olds news) :
      LinesTimed s (n :: ns) (fs ++ fs') (gap ++ old ++ olds) (gap ++ new ++ news)

/-- A declaration as loading makes them whose fragments are not empty, and whose signature and comment
hold no line feed. -/
structure Node.Ready (n : Node) : Prop where
  declaration : n.isDeclaration = true
  fragments : ∀ p ∈ Print.declFragments n, p.2 ≠ [] ∧ ∀ l ∈ p.2, newline ∉ l.text
  comment : newline ∉ n.mark.comment

theorem Node.Ready.opens_decl {n : Node} (h : n.Ready) :
    Stroke.Opens (Print.decl n) ∧ Print.decl n ≠ [] :=
  Print.opens_decl h.declaration fun p hp => (h.fragments p hp).1

namespace Print

theorem opens_decls_of_ready (before : Option Mark) {ns : List Node} (h : ∀ n ∈ ns, n.Ready) :
    Stroke.Opens (decls before ns) := by
  refine opens_decls before (fun n hn => (h n hn).declaration) fun p hp => ?_
  obtain ⟨n, hn, hmem⟩ := List.mem_flatMap.mp hp
  exact ((h n hn).fragments p hmem).1

theorem decls_ne_nil (before : Option Mark) {ns : List Node} (h : ∀ n ∈ ns, n.Ready) (hne : ns ≠ []) :
    decls before ns ≠ [] := by
  obtain ⟨n, ns, rfl⟩ := List.exists_cons_of_ne_nil hne
  have hdecl := (h n List.mem_cons_self).opens_decl.2
  simp [decls, hdecl]

theorem newline_notMem_indent (s : Settings) : newline ∉ s.indent := by
  unfold Settings.indent
  split
  · decide
  · exact fun h => absurd (List.eq_of_mem_replicate h) (by decide)

theorem newline_notMem_indented {indent t : Text} (hindent : newline ∉ indent) (ht : newline ∉ t)
    (depth : Int) : newline ∉ Stroke.indented indent depth t := by
  unfold Stroke.indented
  split
  · exact List.not_mem_nil
  · exact fun h => (List.mem_append.mp h).elim (fun hmem => hindent (mem_of_mem_repeated hmem)) ht

theorem newline_notMem_printed {indent : Text} (hindent : newline ∉ indent) {f : Fragment}
    (hf : ∀ l ∈ f, newline ∉ l.text) (depth : Int) : ∀ t ∈ f.printed indent depth, newline ∉ t := by
  intro t ht
  obtain ⟨l, hl, rfl⟩ := List.mem_map.mp ht
  unfold FragmentLine.printed
  split
  · exact hf l hl
  · exact newline_notMem_indented hindent (hf l hl) _

/-- The signature of a function with a body and the opening brace: the lines they give. -/
theorem lines_signature {indent : Text} {head : FuncHead} {init : List Text} {last : Text}
    (hsignature : head.signature.printed indent 0 = init ++ [last]) (t : Text) :
    Stroke.Opens (fragment 0 head.signature ++ [.extend t]) ∧
      Stroke.lines indent (fragment 0 head.signature ++ [.extend t]) = init ++ [last ++ t] := by
  have hne : fragment 0 head.signature ≠ [] := by
    refine fragment_ne_nil 0 fun hnil => ?_
    rw [hnil] at hsignature
    exact absurd hsignature (by simp [Fragment.printed])
  refine ⟨(opens_fragment 0 _).append_of_ne_nil hne (by simp), ?_⟩
  exact Stroke.lines_extend (opens_fragment 0 _) (by rw [lines_fragment, hsignature]) t

end Print

/-! ## One declaration -/

namespace DeclTimed

variable {s : Settings} {m : Mark} {head : FuncHead} {b : Body Node}

/-- The node of a function with the pair for `identifier` in front of its statements. -/
def timedNode (s : Settings) (m : Mark) (head : FuncHead) (b : Body Node) (identifier : Text) : Node :=
  .funcDecl m head
    (some ⟨b.mark, (Pair.build (utf8 s.reportTemplate) head.qualifiedName identifier).stmts ++ b.stmts⟩)

theorem exists_signature (h : (Node.funcDecl m head (some b)).Ready) :
    ∃ init last, head.signature.printed s.indent 0 = init ++ [last] ∧
      ∀ l ∈ init ++ [last], newline ∉ l := by
  obtain ⟨hne, hclean⟩ := h.fragments (0, head.signature) (by simp [Print.declFragments])
  have hprinted : head.signature.printed s.indent 0 ≠ [] := by simpa [Fragment.printed] using hne
  obtain ⟨init, last, hlast⟩ := (List.eq_nil_or_concat _).resolve_left hprinted
  rw [List.concat_eq_append] at hlast
  refine ⟨init, last, hlast, ?_⟩
  rw [← hlast]
  exact Print.newline_notMem_printed (Print.newline_notMem_indent s) hclean 0

theorem opens_afterBrace (h : (Node.funcDecl m head (some b)).Ready) :
    Stroke.Opens (Print.afterBrace m b) := by
  have hseq : Stroke.Opens (Print.sequence 1 none b.stmts) :=
    Print.opens_sequence 1 none (fun n hn => Or.inl (List.all_eq_true.mp h.declaration n hn))
      fun p hp => (h.fragments p (by simp only [Print.declFragments]; exact List.mem_cons_of_mem _ hp)).1
  exact (hseq.append (Print.opens_line 0 _)).append_of_ne_nil (by simp) (Stroke.sound_trailing m)

theorem newline_notMem_brace {init : List Text} {last : Text} (h : ∀ l ∈ init ++ [last], newline ∉ l)
    {t : Text} (ht : newline ∉ t) : ∀ l ∈ init ++ [last ++ t], newline ∉ l := by
  intro l hl
  rcases List.mem_append.mp hl with hl | hl
  · exact h l (List.mem_append_left _ hl)
  · rw [List.mem_singleton.mp hl]
    exact fun hmem => (List.mem_append.mp hmem).elim (h last (by simp)) ht

/-- The lines of a function with a pair: the signature and the opening brace, the pair, the rest. -/
theorem declLines_timedNode (h : (Node.funcDecl m head (some b)).Ready) {identifier : Text}
    (hidentifier : newline ∉ identifier) {init : List Text} {last : Text}
    (hsignature : head.signature.printed s.indent 0 = init ++ [last])
    (hclean : ∀ l ∈ init ++ [last], newline ∉ l) :
    Stroke.Opens (Print.decl (timedNode s m head b identifier)) ∧
      Print.declLines s.indent (timedNode s m head b identifier) =
        init ++ [last ++ utf8 " \x7b"] ++
          Pair.lines s.indent (utf8 s.reportTemplate) head.qualifiedName identifier ++
          Stroke.textLines s.indent (Print.afterBrace m b) := by
  obtain ⟨hopens, hlines⟩ := Print.lines_signature hsignature (utf8 " \x7b")
  have hpair := Pair.opens_strokes (utf8 s.reportTemplate) head.qualifiedName identifier
  have hbrace : newline ∉ utf8 " \x7b" := by decide +kernel
  have hfront := Stroke.textLines_eq hlines (newline_notMem_brace hclean hbrace)
  have hmiddle := Stroke.textLines_eq (Pair.lines_strokes _ _ _ _)
    (Pair.newline_notMem_lines (Print.newline_notMem_indent s) hidentifier (utf8 s.reportTemplate)
      head.qualifiedName)
  rw [timedNode, Print.declLines, Print.decl_timed]
  refine ⟨(hopens.append hpair).append (opens_afterBrace h), ?_⟩
  rw [Stroke.textLines_append (hopens.append hpair) (opens_afterBrace h),
    Stroke.textLines_append hopens hpair, hfront, hmiddle]

theorem of_full (h : (Node.funcDecl m head (some b)).Ready)
    (hn : (Node.funcDecl m head (some b)).isTimed (utf8 s.skipPrefix) = true) (hb : b.stmts ≠ [])
    {identifier : Text} (hidentifier : newline ∉ identifier) :
    DeclTimed s (.funcDecl m head (some b)) [⟨head.qualifiedName, identifier, m.line?⟩]
      (Print.declLines s.indent (.funcDecl m head (some b)))
      (Print.declLines s.indent (timedNode s m head b identifier)) := by
  obtain ⟨init, last, hsignature, hclean⟩ := exists_signature (s := s) h
  obtain ⟨hopens, hlines⟩ := Print.lines_signature hsignature (utf8 " \x7b")
  have hbrace : newline ∉ utf8 " \x7b" := by decide +kernel
  have hold : Print.declLines s.indent (.funcDecl m head (some b)) =
      init ++ [last ++ utf8 " \x7b"] ++ Stroke.textLines s.indent (Print.afterBrace m b) := by
    rw [Print.declLines, Print.decl_full m head hb,
      Stroke.textLines_append hopens (opens_afterBrace h),
      Stroke.textLines_eq hlines (newline_notMem_brace hclean hbrace)]
  rw [(declLines_timedNode h hidentifier hsignature hclean).2, hold]
  exact .full identifier init last _ hn hb hsignature hold

theorem of_empty (h : (Node.funcDecl m head (some b)).Ready)
    (hn : (Node.funcDecl m head (some b)).isTimed (utf8 s.skipPrefix) = true) (hb : b.stmts = [])
    {identifier : Text} (hidentifier : newline ∉ identifier) :
    DeclTimed s (.funcDecl m head (some b)) [⟨head.qualifiedName, identifier, m.line?⟩]
      (Print.declLines s.indent (.funcDecl m head (some b)))
      (Print.declLines s.indent (timedNode s m head b identifier)) := by
  obtain ⟨init, last, hsignature, hclean⟩ := exists_signature (s := s) h
  obtain ⟨hopens, hlines⟩ := Print.lines_signature hsignature (utf8 " \x7b\x7d")
  have hcomment : newline ∉ m.comment := h.comment
  have hbraces : newline ∉ utf8 " \x7b\x7d" := by decide +kernel
  have hclose : newline ∉ utf8 "\x7d" := by decide +kernel
  have hold : Print.declLines s.indent (.funcDecl m head (some b)) =
      init ++ [last ++ utf8 " \x7b\x7d" ++ m.comment] := by
    rw [Print.declLines, Print.decl_empty m head hb]
    exact Stroke.textLines_eq (Stroke.lines_trailing hopens hlines m)
      (newline_notMem_brace (newline_notMem_brace hclean hbraces) hcomment)
  have hrest : Stroke.textLines s.indent (Print.afterBrace m b) = [utf8 "\x7d" ++ m.comment] := by
    have hindented : Stroke.indented s.indent 0 (utf8 "\x7d") = utf8 "\x7d" :=
      if_neg (by decide +kernel)
    have hbrace : Stroke.lines s.indent [.line 0 (utf8 "\x7d")] = [] ++ [utf8 "\x7d"] :=
      congrArg (fun l => [l]) hindented
    have hclean' : ∀ l ∈ [] ++ [utf8 "\x7d"], newline ∉ l := by simpa using hclose
    rw [Print.afterBrace, hb]
    exact Stroke.textLines_eq (Stroke.lines_trailing (Print.opens_line 0 _) hbrace m)
      (newline_notMem_brace hclean' hcomment)
  rw [(declLines_timedNode h hidentifier hsignature hclean).2, hold, hrest]
  exact .empty identifier init last hn hb hsignature hold

/-- **One declaration**: what timing reports about it, and its lines before and after. -/
theorem of_instrument {n : Node} (h : n.Ready) (p : Progress) :
    ∃ fs, (n.instrument s.plan p).2.timed = p.timed ++ fs ∧
      (n.instrument s.plan p).1.mark = n.mark ∧
      Stroke.Opens (Print.decl (n.instrument s.plan p).1) ∧
      DeclTimed s n fs (Print.declLines s.indent n)
        (Print.declLines s.indent (n.instrument s.plan p).1) := by
  cases hn : n.isTimed (utf8 s.skipPrefix) with
  | false =>
    rw [instrument_of_not_isTimed s.plan h.declaration hn]
    exact ⟨[], by simp, rfl, h.opens_decl.1, .other hn⟩
  | true =>
    obtain ⟨m, head, b, rfl⟩ := exists_of_isTimed hn
    have hidentifier : newline ∉ Names.fresh p.names.taken (Names.normalize s.plan.startIdentifier) :=
      (Names.isIdentifier_fresh _ (Names.isIdentifier_normalize _)).newline_notMem
    rw [instrument_of_isTimed s.plan h.declaration hn]
    obtain ⟨init, last, hsignature, hclean⟩ := exists_signature (s := s) h
    have hopens := (declLines_timedNode h hidentifier hsignature hclean).1
    refine ⟨_, rfl, rfl, hopens, ?_⟩
    by_cases hb : b.stmts = []
    · exact of_empty h hn hb hidentifier
    · exact of_full h hn hb hidentifier

end DeclTimed

/-! ## All declarations -/

theorem Print.textLines_blank (indent : Text) (b : Bool) :
    Stroke.textLines indent (Print.blank b) = [] ∨ Stroke.textLines indent (Print.blank b) = [[]] := by
  cases b with
  | false => exact Or.inl rfl
  | true => exact Or.inr rfl

/-- **All declarations**, by induction on the list: each adds its lines below those before it. -/
theorem LinesTimed.of_instrumentAll {s : Settings} {ns : List Node} (h : ∀ n ∈ ns, n.Ready)
    (before : Option Mark) (p : Progress) :
    ∃ fs, (instrumentAll s.plan ns p).2.timed = p.timed ++ fs ∧
      Stroke.Opens (Print.decls before (instrumentAll s.plan ns p).1) ∧
      LinesTimed s ns fs (Stroke.textLines s.indent (Print.decls before ns))
        (Stroke.textLines s.indent (Print.decls before (instrumentAll s.plan ns p).1)) := by
  induction ns generalizing before p with
  | nil => exact ⟨[], by simp [instrumentAll], Stroke.opens_nil, .nil⟩
  | cons n ns ih =>
    obtain ⟨fs, hfs, hmark, hopens, hdecl⟩ := DeclTimed.of_instrument (s := s) (h n List.mem_cons_self) p
    obtain ⟨fs', hfs', hopens', hrest⟩ :=
      ih (fun k hk => h k (List.mem_cons_of_mem n hk)) (some n.mark) (n.instrument s.plan p).2
    have hold := (h n List.mem_cons_self).opens_decl.1
    have holds := Print.opens_decls_of_ready (some n.mark) fun k hk => h k (List.mem_cons_of_mem n hk)
    have hall : instrumentAll s.plan (n :: ns) p =
        ((n.instrument s.plan p).1 :: (instrumentAll s.plan ns (n.instrument s.plan p).2).1,
          (instrumentAll s.plan ns (n.instrument s.plan p).2).2) := rfl
    have hblank := Print.opens_blank (before.any fun m => (m.blankBetween n.mark).getD true)
    refine ⟨fs ++ fs', ?_, ?_, ?_⟩
    · rw [hall, hfs', hfs, List.append_assoc]
    · rw [hall, Print.decls, hmark]
      exact (hblank.append hopens).append hopens'
    · rw [hall, Print.decls, Print.decls, hmark, Stroke.textLines_append (hblank.append hold) holds,
        Stroke.textLines_append (hblank.append hopens) hopens', Stroke.textLines_append hblank hold,
        Stroke.textLines_append hblank hopens]
      exact .cons _ (Print.textLines_blank s.indent _) hdecl hrest

end Stopwatch
