import Mathlib
import Stopwatch.Proofs.Growth

/-!
# Sessions

A session works on one file with one allocator. It inserts single pairs, times all candidates, and adds
imports, in any order and as often as it likes; an edit that cannot be done leaves the session as it is.

Results:
* `Edit.grows`, `Session.run_grows`: what one edit does, and so what any run of edits does, is growth.
* `Session.AfterRounds.apply`, `Session.afterRounds_run`: rounds of timing with one prefix, with imports
  between them, put the pairs of all rounds in front of each candidate, the newest first.
* `Session.run_only_adds`: both, from any state of a session to any later one.
-/

namespace Stopwatch

/-! ## Edits -/

/-- A node with one of its parts changed: an entry of a list, or an expression. The statements of a body
are parts of its function. -/
def Node.modifyPart (g : Node → Node) (i : Nat) : Node → Node
  | .sourceFile m ds ids => .sourceFile m (ds.modify i g) ids
  | .importDecl m ss grouped => .importDecl m (ss.modify i g) grouped
  | .funcDecl m h (some ⟨bm, ss⟩) => .funcDecl m h (some ⟨bm, ss.modify i g⟩)
  | .block ⟨bm, ss⟩ => .block ⟨bm, ss.modify i g⟩
  | .selectorExpr m x sel => .selectorExpr m (g x) sel
  | .callExpr m f as => if i = 0 then .callExpr m (g f) as else .callExpr m f (as.modify (i - 1) g)
  | .funcLit m ⟨bm, ss⟩ => .funcLit m ⟨bm, ss.modify i g⟩
  | .assignStmt m l tok r =>
    if i < l.length then .assignStmt m (l.modify i g) tok r
    else .assignStmt m l tok (r.modify (i - l.length) g)
  | .deferStmt m c => .deferStmt m (g c)
  | .exprStmt m x => .exprStmt m (g x)
  | n => n

/-- A function with a pair in front of its statements. Without a body it refuses the pair. -/
def Node.insertPair (pair : Pair) : Node → Node
  | .funcDecl m h (some b) => .funcDecl m h (some (b.prepend pair.stmts))
  | n => n

/-- A tree with a pair inserted at an address, which leads from part to part. -/
def Node.insertAt (pair : Pair) : List Nat → Node → Node
  | [], n => n.insertPair pair
  | i :: address, n => n.modifyPart (insertAt pair address) i

/-- What can be done to a session. The statements of a pair are new, so no source rows are recorded for
them. -/
inductive Edit where
  /-- Insert a pair into a function of the top level. -/
  | insertPair (function : Nat) (pair : Pair) (new : Unplaced pair.stmts)
  /-- Insert a pair into any function, at any depth. -/
  | insertInside (decl : Nat) (address : List Nat) (pair : Pair) (new : Unplaced pair.stmts)
  /-- Time all candidates. -/
  | synthesize (plan : Plan)
  /-- Add an import, present or not. -/
  | addImport (path : Text)
  /-- Add those of the imports that are missing. -/
  | ensureImports (paths : List Text)

/-- A file under work, and the names that are still free. -/
structure Session where
  file : SourceFile
  names : Names

/-- The session after an edit. -/
def Edit.apply (s : Session) : Edit → Session
  | .insertPair k pair _ =>
    match s.file.insertPair k fun _ => pair with
    | .ok (_, file) => { s with file }
    | .error _ => s
  | .insertInside d address pair _ =>
    { s with file := { s.file with decls := s.file.decls.modify d (Node.insertAt pair address) } }
  | .synthesize plan =>
    let (file, progress) := s.file.instrument plan s.names
    ⟨file, progress.names⟩
  | .addImport path => { s with file := s.file.addImport path }
  | .ensureImports paths => { s with file := (s.file.ensureImports paths).2 }

/-- The session after a run of edits. -/
def Session.run (s : Session) (edits : List Edit) : Session := edits.foldl Edit.apply s

/-! ## One edit -/

theorem growsAll_modify {g : Node → Node} (hg : ∀ n : Node, n.Grows (g n)) (ns : List Node) (i : Nat) :
    GrowsAll ns (ns.modify i g) := by
  induction ns generalizing i with
  | nil => simpa using GrowsAll.nil
  | cons n ns ih =>
    cases i with
    | zero => exact .cons (hg n) (.refl ns)
    | succ i => exact .cons (.refl n) (ih i)

theorem Node.grows_modifyPart {g : Node → Node} (hg : ∀ n : Node, n.Grows (g n)) (i : Nat)
    (n : Node) : n.Grows (n.modifyPart g i) := by
  have hmodify := growsAll_modify hg
  fun_cases Node.modifyPart g i n with
  | case1 m ds ids => exact .sourceFile m ids (hmodify ds i)
  | case2 m ss grouped => exact .importDecl m grouped (hmodify ss i)
  | case3 m h bm ss => exact .funcDecl m h bm [] (hmodify ss i)
  | case4 bm ss => exact .block bm (hmodify ss i)
  | case5 m x sel => exact .selectorExpr m sel (hg x)
  | case6 m f as => exact .callExpr m (hg f) (.refl as)
  | case7 m f as hi => exact .callExpr m (.refl f) (hmodify as (i - 1))
  | case8 m bm ss => exact .funcLit m bm (hmodify ss i)
  | case9 m l tok r hi => exact .assignStmt m tok (hmodify l i) (.refl r)
  | case10 m l tok r hi => exact .assignStmt m tok (.refl l) (hmodify r (i - l.length))
  | case11 m c => exact .deferStmt m (hg c)
  | case12 m x => exact .exprStmt m (hg x)
  | case13 => exact .refl n

theorem spans_modify {g : Node → Node} (hg : ∀ n : Node, (g n).spans = n.spans) (ns : List Node)
    (i : Nat) : (ns.modify i g).flatMap Node.spans = ns.flatMap Node.spans := by
  induction ns generalizing i with
  | nil => simp
  | cons n ns ih =>
    cases i with
    | zero => simp [hg]
    | succ i => simp [ih]

theorem Node.spans_modifyPart {g : Node → Node} (hg : ∀ n : Node, (g n).spans = n.spans) (i : Nat)
    (n : Node) : (n.modifyPart g i).spans = n.spans := by
  have hmodify := spans_modify hg
  fun_cases Node.modifyPart g i n with
  | case1 | case2 | case4 | case5 | case6 | case7 | case9 | case10 | case11 | case12 =>
    rw [Node.spans_eq, Node.spans_eq]
    simp [Node.mark, Node.children, hg, hmodify]
  | case3 m h bm ss =>
    rw [spans_funcDecl, spans_funcDecl]
    simp [hmodify]
  | case8 m bm ss =>
    rw [Node.spans_eq, Node.spans_eq]
    simp [Node.mark, Node.children, Node.spans_eq (.block _), hmodify]
  | case13 => rfl

theorem Node.grows_insertPair (pair : Pair) (n : Node) : n.Grows (n.insertPair pair) := by
  fun_cases Node.insertPair pair n with
  | case1 m h b => exact .funcDecl m h b.mark pair.stmts (.refl b.stmts)
  | case2 => exact .refl n

theorem Node.spans_insertPair {pair : Pair} (hnew : Unplaced pair.stmts) (n : Node) :
    (n.insertPair pair).spans = n.spans := by
  fun_cases Node.insertPair pair n with
  | case1 m h b =>
    rw [spans_funcDecl, spans_funcDecl, Body.prepend, List.flatMap_append, hnew, List.nil_append]
  | case2 => rfl

theorem Node.grows_insertAt (pair : Pair) (address : List Nat) (n : Node) :
    n.Grows (n.insertAt pair address) := by
  induction address generalizing n with
  | nil => exact n.grows_insertPair pair
  | cons i address ih => exact n.grows_modifyPart ih i

theorem Node.spans_insertAt {pair : Pair} (hnew : Unplaced pair.stmts) (address : List Nat)
    (n : Node) : (n.insertAt pair address).spans = n.spans := by
  induction address generalizing n with
  | nil => exact n.spans_insertPair hnew
  | cons i address ih => exact n.spans_modifyPart ih i

/-- Where a pair can be inserted into a function of the top level, one declaration changes. -/
theorem insertPairAt_eq_modify {pair : Pair} {k n : Nat} {ds es : List Node}
    (h : insertPairAt (fun _ => pair) k ds = .ok (n, es)) :
    ∃ d, es = ds.modify d (Node.insertPair pair) := by
  fun_induction insertPairAt (fun _ => pair) k ds generalizing n es with
  | case1 => cases h
  | case2 => cases h
  | case3 m head ds b =>
    cases h
    exact ⟨0, rfl⟩
  | case4 k m head body ds ih | case5 k d ds _ _ ih =>
    cases hrest : insertPairAt (fun _ => pair) k ds with
    | error e => simp [hrest, Except.map] at h
    | ok result =>
      obtain ⟨d, hd⟩ := ih hrest
      simp only [hrest, Except.map, Except.ok.injEq, Prod.mk.injEq] at h
      exact ⟨d + 1, by rw [← h.2, hd, List.modify_succ_cons]⟩

/-- **An edit only adds.** -/
theorem Edit.grows (s : Session) (e : Edit) : s.file.Grows (e.apply s).file := by
  cases e with
  | insertPair k pair hnew =>
    rw [Edit.apply, SourceFile.insertPair]
    cases h : insertPairAt (fun _ => pair) k s.file.decls with
    | error => exact .refl _
    | ok result =>
      obtain ⟨d, hd⟩ := insertPairAt_eq_modify h
      have hgrows := growsAll_modify (Node.grows_insertPair pair) s.file.decls d
      have hspans := spans_modify (Node.spans_insertPair hnew) s.file.decls d
      rw [← hd] at hgrows hspans
      exact .of_decls hgrows hspans
  | insertInside d address pair hnew =>
    exact .of_decls (growsAll_modify (Node.grows_insertAt pair address) _ d)
      (spans_modify (Node.spans_insertAt hnew address) _ d)
  | synthesize plan =>
    obtain ⟨-, -, huntimed, -⟩ := s.file.instrument_weaves plan s.names
    have hgrows := growsAll_untimedAll plan.skipPrefix (s.file.instrument plan s.names).1.decls
    rw [huntimed] at hgrows
    exact .of_decls hgrows (spans_instrumentAll plan _ _)
  | addImport path => exact .of_extends (Imports.add_extends path _)
  | ensureImports paths => exact .of_ensureImports s.file paths

/-! ## Runs -/

namespace Session

theorem run_append (s : Session) (before after : List Edit) :
    s.run (before ++ after) = (s.run before).run after :=
  List.foldl_append

/-- **A run of edits only adds.** -/
theorem run_grows (s : Session) (edits : List Edit) : s.file.Grows (s.run edits).file := by
  induction edits generalizing s with
  | nil => exact .refl s.file
  | cons e edits ih => exact (e.grows s).trans (ih (e.apply s))

end Session

/-! ## Rounds of timing -/

/-- The pairs stand in front of the statements that the function had. -/
def Function.TimedInTurn (pairs : List Pair) (old new : Function) : Prop :=
  ∃ m stmts rest, old.body = some ⟨m, stmts⟩ ∧ GrowsAll stmts rest ∧
    new = ⟨old.mark, old.head, some ⟨m, pairs.flatMap Pair.stmts ++ rest⟩⟩

/-- The pairs for a function from rounds with these plans, with one start variable for each round. -/
def roundPairs (h : FuncHead) (plans : List Plan) (names : List Text) : List Pair :=
  List.zipWith (fun plan => Pair.build plan.reportTemplate h.qualifiedName) plans names

/-- The functions `olds` were all timed in rounds with these plans, and became `news`; both plans and
start variables are listed with the newest round first. -/
structure TimedInRounds (taken : List Text) (plans : List Plan) (olds news : List Function)
    (columns : List (List Text)) : Prop where
  length : columns.length = olds.length
  /-- Each function has a start variable for each round. -/
  rounds : ∀ own ∈ columns, own.length = plans.length
  /-- No start variable comes twice, in one round or in several. -/
  nodup : columns.flatten.Nodup
  fresh : ∀ name ∈ columns.flatten, name ∉ taken
  timed : List.Forall₂ (fun c new => c.1.TimedInTurn (roundPairs c.1.head plans c.2) new)
    (olds.zip columns) news

theorem functions_roundPairs (h : FuncHead) (plans : List Plan) (names : List Text) :
    ((roundPairs h plans names).flatMap Pair.stmts).flatMap Node.functions = [] := by
  induction plans generalizing names with
  | nil => rfl
  | cons plan plans ih =>
    cases names with
    | nil => rfl
    | cons name names =>
      rw [roundPairs, List.zipWith_cons_cons, List.flatMap_cons, List.flatMap_append, functions_pair]
      exact ih names

/-- One more round puts its pair before the others: these hold no function, so they have not grown. -/
theorem Function.TimedInTurn.cons {skip : Text} {pair : Pair} {pairs : List Pair}
    {old mid new : Function} (h : old.TimedInTurn pairs mid)
    (hpairs : (pairs.flatMap Pair.stmts).flatMap Node.functions = [])
    (hnew : mid.TimedBy skip pair new) : old.TimedInTurn (pair :: pairs) new := by
  obtain ⟨m, stmts, rest, hold, hrest, rfl⟩ := h
  obtain ⟨m', stmts', hmid, rfl⟩ := hnew
  obtain ⟨rfl, hstmts⟩ := Body.mk.inj (Option.some.inj hmid)
  have hgrows := growsAll_untimedAll skip stmts'
  rw [← hstmts] at hgrows
  obtain ⟨pairs', rest', rfl, hpairs', hrest'⟩ := hgrows.split
  rw [hpairs'.eq_of_functions_eq_nil hpairs]
  exact ⟨m, stmts, rest', hold, hrest.trans hrest', by rw [List.flatMap_cons, List.append_assoc]⟩

theorem flatten_zipWith_cons {vs : List Text} {vss : List (List Text)} (h : vs.length = vss.length) :
    (List.zipWith List.cons vs vss).flatten.Perm (vs ++ vss.flatten) := by
  induction vs generalizing vss with
  | nil =>
    rw [List.length_eq_zero_iff.mp h.symm]
    exact .refl _
  | cons v vs ih =>
    cases vss with
    | nil => cases h
    | cons own vss =>
      rw [List.zipWith_cons_cons, List.flatten_cons, List.flatten_cons, List.cons_append,
        List.cons_append]
      have hrest := ih (by simpa using h)
      refine .cons v ((hrest.append_left own).trans ?_)
      rw [← List.append_assoc, ← List.append_assoc]
      exact List.perm_append_comm.append_right _

namespace TimedInRounds

variable {taken : List Text} {plans : List Plan} {olds mids news : List Function}
  {columns : List (List Text)}

/-- Before the first round. -/
theorem start {skip : Text} (h : ∀ f ∈ olds, f.isCandidate skip = true) :
    TimedInRounds taken [] olds olds (List.replicate olds.length []) where
  length := List.length_replicate
  rounds := fun own hown => by rw [List.eq_of_mem_replicate hown]; rfl
  nodup := by simp
  fresh := by simp
  timed := by
    induction olds with
    | nil => exact .nil
    | cons f olds ih =>
      refine .cons ?_ (ih fun g hg => h g (List.mem_cons_of_mem f hg))
      obtain ⟨b, hb⟩ := Option.isSome_iff_exists.mp
        (Bool.and_eq_true_iff.mp (h f List.mem_cons_self)).2
      exact ⟨b.mark, b.stmts, b.stmts, hb, .refl _, by simp [roundPairs, ← hb]⟩

theorem timed_cons {skip : Text} {plan : Plan} {vs : List Text}
    (hlen : columns.length = olds.length) (hvs : vs.length = olds.length)
    (h : List.Forall₂ (fun c new => c.1.TimedInTurn (roundPairs c.1.head plans c.2) new)
      (olds.zip columns) mids)
    (hnew : List.Forall₂ (fun c new => Function.TimedBy skip
      (Pair.build plan.reportTemplate c.1.head.qualifiedName c.2) c.1 new) (mids.zip vs) news) :
    List.Forall₂ (fun c new => c.1.TimedInTurn (roundPairs c.1.head (plan :: plans) c.2) new)
      (olds.zip (List.zipWith List.cons vs columns)) news := by
  induction olds generalizing columns mids vs news with
  | nil =>
    cases h
    cases hnew
    exact .nil
  | cons f olds ih =>
    cases columns with
    | nil => cases hlen
    | cons own columns =>
      cases vs with
      | nil => cases hvs
      | cons v vs =>
        rw [List.zip_cons_cons] at h
        cases h with
        | cons hmid hmids =>
          rw [List.zip_cons_cons] at hnew
          cases hnew with
          | cons hf hfs =>
            refine .cons ?_ (ih (by simpa using hlen) (by simpa using hvs) hmids hfs)
            have hhead := hmid
            obtain ⟨m, stmts, rest, -, -, rfl⟩ := hhead
            exact hmid.cons (functions_roundPairs _ _ _) hf

/-- **One more round**, with new start variables. -/
theorem round {skip : Text} {plan : Plan} {vs : List Text}
    (h : TimedInRounds taken plans olds mids columns) (hvs : vs.length = olds.length)
    (hnodup : vs.Nodup) (hfresh : ∀ v ∈ vs, v ∉ columns.flatten ∧ v ∉ taken)
    (hnew : List.Forall₂ (fun c new => Function.TimedBy skip
      (Pair.build plan.reportTemplate c.1.head.qualifiedName c.2) c.1 new) (mids.zip vs) news) :
    TimedInRounds taken (plan :: plans) olds news (List.zipWith List.cons vs columns) := by
  have hperm := flatten_zipWith_cons (hvs.trans h.length.symm)
  refine ⟨?_, ?_, ?_, ?_, timed_cons h.length hvs h.timed hnew⟩
  · rw [List.length_zipWith, hvs, h.length, Nat.min_self]
  · intro own hown
    rw [← List.map_uncurry_zip_eq_zipWith, List.mem_map] at hown
    obtain ⟨⟨v, own'⟩, hmem, rfl⟩ := hown
    exact congrArg (· + 1) (h.rounds own' (List.of_mem_zip hmem).2)
  · rw [hperm.nodup_iff]
    exact List.nodup_append'.mpr ⟨hnodup, h.nodup, fun v hv => (hfresh v hv).1⟩
  · intro v hv
    rcases List.mem_append.mp (hperm.mem_iff.mp hv) with hv | hv
    · exact (hfresh v hv).2
    · exact h.fresh v hv

end TimedInRounds

/-! ## Rounds in a session -/

/-- The plan of a round of timing. -/
def Edit.plan? : Edit → Option Plan
  | .synthesize plan => some plan
  | _ => none

/-- The edit inserts no single pair, and as a round of timing it skips this prefix. -/
def Edit.InRounds (skip : Text) : Edit → Prop
  | .insertPair .. | .insertInside .. => False
  | .synthesize plan => plan.skipPrefix = skip
  | .addImport _ | .ensureImports _ => True

namespace Session

/-- The functions of a session that a round of timing goes through. -/
def candidates (s : Session) (skip : Text) : List Function := s.file.toNode.candidates skip

theorem candidates_synthesize (s : Session) (plan : Plan) :
    let names := Weaves.names plan ⟨s.names, []⟩ (s.candidates plan.skipPrefix).length
    List.Forall₂ (fun c new => c.1.TimedBy plan.skipPrefix
        (Pair.build plan.reportTemplate c.1.head.qualifiedName c.2) new)
      ((s.candidates plan.skipPrefix).zip names.1)
      (((Edit.synthesize plan).apply s).candidates plan.skipPrefix) ∧
    ((Edit.synthesize plan).apply s).names = names.2 := by
  obtain ⟨-, -, -, hweaves⟩ := s.file.instrument_weaves plan s.names
  exact ⟨hweaves.candidates, hweaves.progress_eq.2⟩

/-- Adding imports leaves functions and names alone. -/
theorem candidates_of_addedAll (s s' : Session) (skip : Text) {paths : List Text}
    (h : Imports.AddedAll paths s.file.decls s'.file.decls) :
    s'.candidates skip = s.candidates skip := by
  have hfunctions := functions_of_addedAll h
  unfold candidates Node.candidates
  rw [SourceFile.toNode, SourceFile.toNode, functions_sourceFile, functions_sourceFile, hfunctions]

/-- The session `now` has come from `first` by rounds with these plans, the newest first: they have put
their pairs before each candidate, and their start variables are taken. -/
def AfterRounds (skip : Text) (plans : List Plan) (first now : Session) : Prop :=
  ∃ columns, TimedInRounds first.names.taken plans (first.candidates skip) (now.candidates skip)
      columns ∧
    ∀ name, name ∈ now.names.taken ↔ name ∈ columns.flatten ∨ name ∈ first.names.taken

/-- One more round finds its start variables among the names that are free. -/
theorem AfterRounds.synthesize {plan : Plan} {plans : List Plan} {first now : Session}
    (h : AfterRounds plan.skipPrefix plans first now) :
    AfterRounds plan.skipPrefix (plan :: plans) first ((Edit.synthesize plan).apply now) := by
  obtain ⟨columns, hrounds, htaken⟩ := h
  obtain ⟨hnew, hnames⟩ := now.candidates_synthesize plan
  set n := (now.candidates plan.skipPrefix).length with hn
  set names := Weaves.names plan ⟨now.names, []⟩ n
  have hlen : names.1.length = (first.candidates plan.skipPrefix).length := by
    have hnames : names.1.length = n := (Names.length_allocateAll _ _).trans List.length_replicate
    have hcount := hrounds.timed.length_eq
    rw [List.length_zip, hrounds.length, Nat.min_self] at hcount
    rw [hnames, hn, hcount]
  have hfresh : ∀ v ∈ names.1, v ∉ columns.flatten ∧ v ∉ first.names.taken := by
    intro v hv
    have hnot := Names.allocateAll_fresh _ _ v hv
    rwa [htaken, not_or] at hnot
  refine ⟨_, hrounds.round hlen (Names.allocateAll_nodup _ _) hfresh hnew, fun name => ?_⟩
  have hflat := (flatten_zipWith_cons (hlen.trans hrounds.length.symm)).mem_iff (a := name)
  have hmem : name ∈ names.2.taken ↔ name ∈ names.1 ∨ name ∈ now.names.taken :=
    Names.mem_taken_allocateAll _ _ name
  rw [hnames, hflat, hmem, htaken, List.mem_append, or_assoc]

/-- What one edit does to rounds that are under way. -/
theorem AfterRounds.apply {skip : Text} {plans : List Plan} {first now : Session}
    (h : AfterRounds skip plans first now) {e : Edit} (he : e.InRounds skip) :
    AfterRounds skip (e.plan?.toList ++ plans) first (e.apply now) := by
  cases e with
  | insertPair | insertInside => exact he.elim
  | synthesize plan =>
    obtain rfl : plan.skipPrefix = skip := he
    exact h.synthesize
  | addImport path =>
    have hadded : Imports.AddedAll [path] now.file.decls (Imports.add path now.file.decls) :=
      .cons (Imports.add_added path _) (.nil _)
    have hcandidates := candidates_of_addedAll now ((Edit.addImport path).apply now) skip hadded
    unfold AfterRounds
    rw [hcandidates]
    exact h
  | ensureImports paths =>
    obtain ⟨-, -, hadded⟩ := now.file.ensureImports_added paths
    have hcandidates :=
      candidates_of_addedAll now ((Edit.ensureImports paths).apply now) skip hadded
    unfold AfterRounds
    rw [hcandidates]
    exact h

theorem afterRounds_run (s : Session) {skip : Text} {edits : List Edit}
    (h : ∀ e ∈ edits, e.InRounds skip) :
    AfterRounds skip (edits.filterMap Edit.plan?).reverse s (s.run edits) := by
  induction edits using List.reverseRecOn with
  | nil => exact ⟨_, .start fun f hf => List.of_mem_filter hf, by simp [run]⟩
  | append_singleton edits e ih =>
    have hedits := ih fun e' he' => h e' (List.mem_append_left _ he')
    have he := h e (List.mem_append_right _ (List.mem_singleton_self e))
    have hplans : ((edits ++ [e]).filterMap Edit.plan?).reverse =
        e.plan?.toList ++ (edits.filterMap Edit.plan?).reverse := by
      rw [List.filterMap_append, List.reverse_append]
      cases hplan : e.plan? <;> simp [hplan]
    rw [run_append, hplans]
    exact hedits.apply he

/-- **A session only adds**, from any of its states to any later one. What it had is found again, functions
with all their statements last; rounds of timing that are not mixed with single pairs put one pair each
before every candidate, with start variables that are all different. -/
theorem run_only_adds (s : Session) (before after : List Edit) :
    (s.run before).file.Grows (s.run (before ++ after)).file ∧
    List.SublistForall₂ Function.Grows (s.run before).file.toNode.functions
      (s.run (before ++ after)).file.toNode.functions ∧
    ∀ skip, (∀ e ∈ after, e.InRounds skip) →
      ∃ columns, TimedInRounds (s.run before).names.taken (after.filterMap Edit.plan?).reverse
        ((s.run before).candidates skip) ((s.run (before ++ after)).candidates skip) columns := by
  have hgrows := (s.run before).run_grows after
  rw [← run_append] at hgrows
  refine ⟨hgrows, hgrows.functions, fun skip h => ?_⟩
  obtain ⟨columns, hrounds, -⟩ := (s.run before).afterRounds_run h
  rw [← run_append] at hrounds
  exact ⟨columns, hrounds⟩

/-- A file with two functions, one of them declared inside the other, and an import of `"C"`. -/
def nested : Session where
  file :=
    { decls := [.packageClause {} (utf8 "main"),
        .importDecl {} [.importSpec {} ⟨utf8 "C", utf8 "\"C\"", none⟩] false,
        .funcDecl {} ⟨utf8 "f", .single (utf8 "func f()"), none⟩
          (some ⟨{}, [.funcDecl {} ⟨utf8 "g", .single (utf8 "func g()"), none⟩ (some {})]⟩)]
      identifiers := [utf8 "main", utf8 "f", utf8 "g"] }
  names := ⟨[utf8 "main", utf8 "f", utf8 "g"]⟩

theorem run_only_adds_nested :
    ∃ columns, TimedInRounds nested.names.taken [{}, {}] (nested.candidates (utf8 "Test"))
      ((nested.run [.synthesize {}, .ensureImports requiredImports, .synthesize {}]).candidates
        (utf8 "Test")) columns := by
  refine (nested.run_only_adds [] [.synthesize {}, .ensureImports requiredImports,
    .synthesize {}]).2.2 (utf8 "Test") fun e he => ?_
  simp only [List.mem_cons, List.not_mem_nil, or_false] at he
  rcases he with rfl | rfl | rfl
  · rfl
  · trivial
  · rfl

end Session

end Stopwatch
