import Mathlib
import Stopwatch.Proofs.Printable
import Stopwatch.Proofs.Programs

/-!
# Rounds of work on a file

A file is loaded and then worked on in rounds: its candidates are timed, or missing imports are added. No
round brings a node to a place where the printer does not take it, and every declaration keeps the line it
starts with. So the file can be printed after any number of rounds.

Results:
* `SourceFile.Round`: one round, with any plan, any names and any paths.
* `Node.Lasting.opens`, `SourceFile.Round.lasting`: declarations that can be printed, and stay so.
* `SourceFile.render_after_rounds`: from a tree in which every item has a token, and every function one in
  front of its body.
* `SourceFile.render_bare_function`: a function that is a token itself has no line, and a comment behind it
  cannot be printed.
-/

namespace Stopwatch

/-! ## Declarations that can be printed after any round -/

/-- A statement that is kept as text, or one of a pair. -/
inductive Node.IsBodyStatement : Node → Prop
  | kept {n : Node} (h : n.isStatement = true) : n.IsBodyStatement
  | start (template name identifier : Text) :
      Node.IsBodyStatement (Pair.build template name identifier).start
  | report (template name identifier : Text) :
      Node.IsBodyStatement (Pair.build template name identifier).report

/-- A declaration that starts with a line of its own and has only parts that can be printed. -/
inductive Node.Lasting : Node → Prop
  | package (m : Mark) (name : Text) : Node.Lasting (.packageClause m name)
  | imports (m : Mark) {entries : List Node} (grouped : Bool) (h : entries.all Node.isEntry = true) :
      Node.Lasting (.importDecl m entries grouped)
  | bodyless (m : Mark) {head : FuncHead} (h : head.signature ≠ []) :
      Node.Lasting (.funcDecl m head none)
  | function (m : Mark) {head : FuncHead} {b : Body Node} (h : head.signature ≠ [])
      (stmts : ∀ n ∈ b.stmts, n.IsBodyStatement) : Node.Lasting (.funcDecl m head (some b))
  | raw (m : Mark) (kind : String) {f : Fragment} (h : f ≠ []) : Node.Lasting (.rawDecl m kind f)
  | comment (m : Mark) {f : Fragment} (h : f ≠ []) : Node.Lasting (.comment m f)

/-- Loaded declarations without empty fragments. -/
theorem Node.Ready.lasting {n : Node} (h : n.Ready) : n.Lasting := by
  have hdecl := h.declaration
  have hne : ∀ p ∈ Print.declFragments n, p.2 ≠ [] := fun p hp => (h.fragments p hp).1
  cases n with
  | packageClause m name => exact .package m name
  | importDecl m entries grouped => exact .imports m grouped hdecl
  | funcDecl m head b =>
    cases b with
    | none => exact .bodyless m (hne (0, head.signature) (by simp [Print.declFragments]))
    | some b =>
      refine .function m (hne (0, head.signature) (by simp [Print.declFragments])) ?_
      intro k hk
      exact .kept (List.all_eq_true.mp hdecl k hk)
  | rawDecl m kind f => exact .raw m kind (hne (0, f) (by simp [Print.declFragments]))
  | comment m f => exact .comment m (hne (0, f) (by simp [Print.declFragments]))
  | _ => simp [Node.isDeclaration] at hdecl

namespace Print

theorem sound_stmt {n : Node} (h : n.IsBodyStatement) (e : PrintError) : .reject e ∉ stmt 1 n := by
  cases h with
  | kept h => exact Stroke.not_mem_reject_of_isPlain (isPlain_stmt 1 (Or.inl h)) e
  | start template name identifier =>
    rw [Pair.stmt_start]
    simp
  | report template name identifier =>
    rw [Pair.stmt_report]
    simp

theorem sound_sequence {ns : List Node} (h : ∀ n ∈ ns, n.IsBodyStatement) (before : Option Mark)
    (e : PrintError) : .reject e ∉ sequence 1 before ns := by
  induction ns generalizing before with
  | nil => exact List.not_mem_nil
  | cons n ns ih =>
    obtain ⟨hn, hns⟩ := List.forall_mem_cons.mp h
    rw [sequence, List.mem_append, List.mem_append, not_or, not_or]
    exact ⟨⟨(opens_blank _).sound e, sound_stmt hn e⟩, ih hns _⟩

theorem sound_body {b : Body Node} (h : ∀ n ∈ b.stmts, n.IsBodyStatement) (e : PrintError) :
    .reject e ∉ body b := by
  have hsequence := sound_sequence h none e
  unfold body braces
  split
  · simp
  · simp [hsequence]

end Print

/-- **A lasting declaration can be printed.** -/
theorem Node.Lasting.opens {n : Node} (h : n.Lasting) : Stroke.Opens (Print.decl n) := by
  have htrailing : ∀ (m : Mark) (e : PrintError), .reject e ∉ Print.trailing m :=
    Stroke.sound_trailing
  cases h with
  | package m name => exact (Print.opens_line 0 _).append_of_ne_nil (by simp) (htrailing m)
  | imports m grouped h => exact (Print.printable_importDecl m grouped h).opens
  | bodyless m h =>
    exact (Print.opens_fragment 0 _).append_of_ne_nil (Print.fragment_ne_nil 0 h) (htrailing m)
  | function m h stmts =>
    rw [Print.decl, List.append_assoc]
    refine (Print.opens_fragment 0 _).append_of_ne_nil (Print.fragment_ne_nil 0 h) fun e he => ?_
    rcases List.mem_append.mp he with he | he
    · exact Print.sound_body stmts e he
    · exact htrailing m e he
  | raw m kind h =>
    exact (Print.opens_fragment 0 _).append_of_ne_nil (Print.fragment_ne_nil 0 h) (htrailing m)
  | comment m h =>
    exact (Print.opens_fragment 0 _).append_of_ne_nil (Print.fragment_ne_nil 0 h) (htrailing m)

/-! ## One round -/

/-- A pair holds no function, so timing passes it over. -/
theorem Node.IsBodyStatement.instrument {n : Node} (h : n.IsBodyStatement) (plan : Plan) (p : Progress) :
    n.instrument plan p = (n, p) := by
  cases h with
  | kept h => exact instrument_of_isStatement plan (Or.inl h) p
  | start => rfl
  | report => rfl

theorem instrumentAll_of_isBodyStatement (plan : Plan) {ns : List Node}
    (h : ∀ n ∈ ns, n.IsBodyStatement) (p : Progress) : instrumentAll plan ns p = (ns, p) := by
  induction ns with
  | nil => rfl
  | cons n ns ih =>
    obtain ⟨hn, hns⟩ := List.forall_mem_cons.mp h
    rw [instrumentAll, hn.instrument]
    simp only [ih hns]

/-- Timing a declaration puts at most a pair in front of its statements. -/
theorem Node.Lasting.instrument {n : Node} (h : n.Lasting) (plan : Plan) (p : Progress) :
    (n.instrument plan p).1.Lasting := by
  cases h with
  | package m name => exact .package m name
  | @imports m entries grouped h =>
    have hsame := instrumentAll_of_isStatement plan
      (fun k hk => Or.inr (List.all_eq_true.mp h k hk)) p
    simp only [Node.instrument, hsame]
    exact .imports m grouped h
  | bodyless m h => exact .bodyless m h
  | @function m head b h stmts =>
    have hsame := instrumentAll_of_isBodyStatement plan stmts
    by_cases hskipped : head.isSkipped plan.skipPrefix = true
    · simp only [Node.instrument, hskipped, if_true, hsame]
      exact .function m h stmts
    · simp only [Node.instrument, hskipped, hsame]
      refine .function m h fun k hk => ?_
      rcases List.mem_append.mp hk with hk | hk
      · simp only [Pair.stmts, Plan.time, List.mem_cons, List.not_mem_nil, or_false] at hk
        rcases hk with rfl | rfl
        · exact .start _ _ _
        · exact .report _ _ _
      · exact stmts k hk
  | raw m kind h => exact .raw m kind h
  | comment m h => exact .comment m h

theorem lasting_instrumentAll {ns : List Node} (h : ∀ n ∈ ns, n.Lasting) (plan : Plan) (p : Progress) :
    ∀ n ∈ (instrumentAll plan ns p).1, n.Lasting := by
  induction ns generalizing p with
  | nil => simp [instrumentAll]
  | cons n ns ih =>
    obtain ⟨hn, hns⟩ := List.forall_mem_cons.mp h
    exact List.forall_mem_cons.mpr ⟨hn.instrument plan p, ih hns _⟩

theorem Node.lasting_ofEntries : Imports.OfEntries Node.Lasting := by
  intro m entries grouped
  constructor
  · intro h
    cases h with
    | imports _ _ h => exact h
  · exact .imports m grouped

namespace SourceFile

/-- One round of work on a file: its candidates are timed, with any names left, or missing imports are
added. -/
inductive Round : SourceFile → SourceFile → Prop
  | time (f : SourceFile) (plan : Plan) (names : Names) : Round f (f.instrument plan names).1
  | imports (f : SourceFile) (paths : List Text) : Round f (f.ensureImports paths).2

/-- **One round** keeps all declarations lasting. -/
theorem Round.lasting {f g : SourceFile} (h : Round f g) (hf : ∀ n ∈ f.decls, n.Lasting) :
    ∀ n ∈ g.decls, n.Lasting := by
  cases h with
  | time plan names => exact lasting_instrumentAll hf plan ⟨names, []⟩
  | imports paths =>
    exact (f.ensureImports_added paths).2.2.forall_of Node.lasting_ofEntries hf

/-- **Any number of rounds** does. -/
theorem lasting_of_rounds {f g : SourceFile} (h : Relation.ReflTransGen Round f g)
    (hf : ∀ n ∈ f.decls, n.Lasting) : ∀ n ∈ g.decls, n.Lasting := by
  induction h with
  | refl => exact hf
  | tail _ hround ih => exact hround.lasting ih

end SourceFile

/-! ## Trees in which every item has a token -/

/-- A concrete tree whose tokens start in order, and in which every item of every list has one. -/
structure Cst.Spelled (root : Cst) : Prop where
  bounds : ∀ l ∈ root.leaves "", l.start ≤ l.stop
  ordered : (root.leaves "").Pairwise fun a b => a.start ≤ b.start
  items : ∀ i ∈ Load.allItems root, i.leaves ≠ []

namespace Load

/-- A piece is one of the items, or the signature of a function. -/
theorem piece_items {source : Source} {root : Cst} {p : Piece} (h : p ∈ pieces source root) :
    (∃ depth, ∃ i ∈ allItems root, p = .ofItem depth i) ∨
      ∃ c ∈ root.namedChildren, isFunctionKind c.kind = true ∧ p = ⟨0, c.kind, headNodes c⟩ := by
  obtain ⟨b, hb, hp⟩ := List.mem_flatMap.mp h
  have htop := mem_of_mem_sortedBlocks source hb
  have hinner : ∀ e ∈ innerItems b.1.node, e ∈ allItems root := fun e he =>
    List.mem_append_right _ (List.mem_flatMap.mpr ⟨b.1, htop, he⟩)
  unfold itemPieces at hp
  split_ifs at hp with hpackage himport hfunction
  · exact absurd hp List.not_mem_nil
  · obtain ⟨e, he, rfl⟩ := List.mem_map.mp hp
    refine Or.inl ⟨1, e.1, hinner e.1 ?_, rfl⟩
    rw [innerItems, if_pos himport]
    exact mem_of_mem_sortedBlocks source (List.mem_filter.mp he).1
  · rcases List.mem_cons.mp hp with rfl | hp
    · obtain ⟨c, hc, hitem⟩ := List.mem_map.mp htop
      rw [← hitem] at hfunction ⊢
      exact Or.inr ⟨c, hc, hfunction, rfl⟩
    · cases hbody : b.1.node.childByField? "body" with
      | none => simp [hbody] at hp
      | some body =>
        rw [hbody] at hp
        obtain ⟨e, he, rfl⟩ := List.mem_map.mp hp
        refine Or.inl ⟨1, e.1, hinner e.1 ?_, rfl⟩
        rw [innerItems, if_neg himport, if_pos hfunction, hbody]
        exact mem_of_mem_sortedBlocks source he
  · obtain rfl := List.mem_singleton.mp hp
    exact Or.inl ⟨0, b.1, List.mem_append_left _ htop, rfl⟩

/-- The declarations of a loaded file, if the signatures have tokens as well. -/
theorem lasting_of_spelled {text : Text} {root : Cst} (hroot : root.Spelled)
    (hheads : ∀ c ∈ root.namedChildren, isFunctionKind c.kind = true → headLeaves c ≠ []) {n : Node}
    (hn : n ∈ (SourceFile.build (Source.ofText text) root).decls) : n.Lasting := by
  refine (ready_of_fragments (fun p hp => ?_) hn).lasting
  have hne : p.leaves ≠ [] := by
    obtain ⟨depth, i, hi, rfl⟩ | ⟨c, hc, hkind, rfl⟩ := piece_items hp
    · rw [Piece.leaves_ofItem]
      exact hroot.items i hi
    · exact hheads c hc hkind
  have hsub := leaves_sublist hp
  obtain ⟨first, rest, hleaves⟩ := List.exists_cons_of_ne_nil hne
  have hlast := List.getLast?_eq_some_getLast hne
  have hmem : p.leaves.getLast hne ∈ first :: rest := hleaves ▸ List.getLast_mem hne
  have hordered := hroot.ordered.sublist hsub
  rw [hleaves] at hordered
  have hle : first.start ≤ (p.leaves.getLast hne).start := by
    rcases List.mem_cons.mp hmem with heq | hrest
    · rw [heq]
    · exact (List.pairwise_cons.mp hordered).1 _ hrest
  exact fragment_ne_nil_of_le (by rw [hleaves]; rfl) hlast
    (hle.trans (hroot.bounds _ (hsub.subset (List.getLast_mem hne)))) text

end Load

namespace SourceFile

/-- **A file can be printed after any number of rounds** if every item of its tree has a token and every
function has one in front of its body, or below it if it has no body. -/
theorem render_after_rounds {text : Text} {root : Cst} {f g : SourceFile}
    (hload : ofCst text root = .ok f) (hroot : root.Spelled)
    (hheads : ∀ c ∈ root.namedChildren, Load.isFunctionKind c.kind = true → Load.headLeaves c ≠ [])
    (hrounds : Relation.ReflTransGen Round f g) (indent : Text) : ∃ t, g.render indent = .ok t := by
  obtain rfl := Load.ofCst_eq_build hload
  have hlasting := lasting_of_rounds hrounds fun n hn => Load.lasting_of_spelled hroot hheads hn
  have hopens : Stroke.Opens g.strokes :=
    Print.opens_decls_of_opens none fun n hn => (hlasting n hn).opens
  exact ⟨_, render_of_opens hopens indent⟩

/-- A file timed twice, with imports added between. -/
def thrice (f : SourceFile) : SourceFile :=
  ((f.instrument {} {}).1.ensureImports requiredImports).2.instrument {} {} |>.1

theorem render_after_rounds_sample :
    ofCst Sample.text Sample.tree = .ok (build (Source.ofText Sample.text) Sample.tree) ∧
    Sample.tree.Spelled ∧
    (∀ c ∈ Sample.tree.namedChildren, Load.isFunctionKind c.kind = true → Load.headLeaves c ≠ []) ∧
    Relation.ReflTransGen Round (build (Source.ofText Sample.text) Sample.tree)
      (thrice (build (Source.ofText Sample.text) Sample.tree)) ∧
    ∃ t, (thrice (build (Source.ofText Sample.text) Sample.tree)).render [] = .ok t := by
  have hspelled : Sample.tree.Spelled := ⟨by decide, by decide, by decide⟩
  have hheads : ∀ c ∈ Sample.tree.namedChildren, Load.isFunctionKind c.kind = true →
      Load.headLeaves c ≠ [] := by decide
  have hrounds : Relation.ReflTransGen Round (build (Source.ofText Sample.text) Sample.tree)
      (thrice (build (Source.ofText Sample.text) Sample.tree)) :=
    .tail (.tail (.tail .refl (.time _ {} {})) (.imports _ requiredImports)) (.time _ {} {})
  exact ⟨Sample.ofCst_eq, hspelled, hheads, hrounds,
    render_after_rounds Sample.ofCst_eq hspelled hheads hrounds []⟩

/-! ## A function that is a token itself -/

/-- A function without anything below it, a comment behind it, and the package clause on the next row. -/
def bareText : Text := utf8 "f // c\npackage p\n"

def bareFunction : Cst := Sample.named "function_declaration" 0 1 none

def bareComment : Cst := Sample.named "comment" 2 6 none

def barePackage : Cst :=
  Sample.branch "package_clause" 7 16 none
    [Sample.token "package" 7 14, Sample.named "package_identifier" 15 16 none]

def bareTree : Cst :=
  Sample.branch "source_file" 0 17 none
    [bareFunction, bareComment, barePackage, Sample.token "\n" 16 17]

/-- **A token in every item is not enough.** Here each item has one, and no function has a body; but the
function has no line, so there is none that the comment behind it could stand on. -/
theorem render_bare_function :
    bareTree.Spelled ∧
    (∀ c ∈ bareTree.namedChildren, Load.isFunctionKind c.kind = true →
      (c.childByField? "body").isSome = true → Load.headLeaves c ≠ []) ∧
    ∃ f, ofCst bareText bareTree = .ok f ∧ f.render (({} : Settings).indent) = .error .noLine := by
  have hspelled : bareTree.Spelled := ⟨by decide, by decide, by decide⟩
  have hpackage : ∃ c ∈ bareTree.namedChildren, c.kind = "package_clause" :=
    ⟨barePackage, by simp [bareTree, Sample.branch, Cst.namedChildren, Cst.children, barePackage, Cst.info],
      rfl⟩
  refine ⟨hspelled, by decide, _, Load.ofCst_eq_ok (by decide) hpackage, ?_⟩
  have hblocks : Load.sortedBlocks (Source.ofText bareText) (Load.topItems bareTree) =
      [(⟨"source_file", bareFunction⟩, some ⟨"source_file", bareComment⟩),
        (⟨"source_file", barePackage⟩, none)] := by
    rw [Load.sortedBlocks, Load.inOrder_eq_self (by decide)]
    rfl
  obtain ⟨rest, hstrokes⟩ : ∃ rest, (build (Source.ofText bareText) bareTree).strokes =
      .extend (utf8 " // c") :: rest := by
    rw [strokes, Load.decls_build, hblocks]
    exact ⟨_, rfl⟩
  rw [render, hstrokes]
  rfl

end SourceFile

end Stopwatch
