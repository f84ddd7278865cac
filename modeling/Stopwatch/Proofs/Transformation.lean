import Mathlib
import Stopwatch.Proofs.Imports
import Stopwatch.Proofs.Weaving
import Stopwatch.Timing.Transform

/-!
# What a transformation does to a tree

The pairs are woven in first (`Weaving.lean`), then the missing imports are added (`Imports.lean`). Neither
disturbs the other: an added import brings no function, and taking the pairs out of a tree commutes with
adding an import.

Results:
* `SourceFile.transform_timing`: the tree that is printed and the report that comes with it, described
  from the list of candidates in pre-order (`Timing`). No assumption is made on the tree, and the
  description also covers trees that the printer then refuses.
-/

namespace Stopwatch

/-! ## Imports and pairs side by side -/

open Imports

theorem functions_of_added {path : Text} {ds es : List Node} (h : Added path ds es) :
    es.flatMap Node.functions = ds.flatMap Node.functions := by
  cases h <;> simp [newEntry]

theorem functions_of_addedAll {paths : List Text} {ds es : List Node} (h : AddedAll paths ds es) :
    es.flatMap Node.functions = ds.flatMap Node.functions := by
  induction h with
  | nil => rfl
  | cons first _ ih => rw [ih, functions_of_added first]

theorem untimed_importDecl (skip : Text) (m : Mark) (entries : List Node) (grouped : Bool) :
    (Node.importDecl m entries grouped).untimed skip =
      .importDecl m (untimedAll skip entries) grouped := by
  rw [Node.untimed, Node.mapBodies, mapBodiesAll_untimed]

theorem untimed_newEntry (skip path : Text) : (newEntry path).untimed skip = newEntry path := rfl

theorem added_untimedAll (skip : Text) {path : Text} {ds es : List Node} (h : Added path ds es) :
    Added path (untimedAll skip ds) (untimedAll skip es) := by
  cases h with
  | entry before after m left right grouped =>
    have hlen : (left ++ right).length =
        (untimedAll skip left ++ untimedAll skip right).length := by simp
    rw [hlen]
    simp only [untimedAll_append, untimedAll_cons, untimed_importDecl, untimed_newEntry]
    exact .entry _ _ m _ _ grouped
  | decl before after =>
    simp only [untimedAll_append, untimedAll_cons, untimed_importDecl, untimed_newEntry,
      untimedAll_nil]
    exact .decl _ _

theorem addedAll_untimedAll (skip : Text) {paths : List Text} {ds es : List Node}
    (h : AddedAll paths ds es) : AddedAll paths (untimedAll skip ds) (untimedAll skip es) := by
  induction h with
  | nil => exact .nil _
  | cons first _ ih => exact .cons (added_untimedAll skip first) ih

/-- Timing does not touch the entries of import declarations. -/
theorem spec?_untimed (skip : Text) (n : Node) : (n.untimed skip).spec? = n.spec? := by
  cases n with
  | funcDecl m h b => cases b <;> rfl
  | _ => rfl

theorem imports_eq_of_untimedAll (skip : Text) {f g : SourceFile}
    (h : untimedAll skip g.decls = f.decls) : g.imports = f.imports := by
  unfold SourceFile.imports
  rw [← h, untimedAll, List.flatMap_map]
  refine List.flatMap_congr fun n _ => ?_
  cases n with
  | importDecl m entries grouped =>
    simp [untimed_importDecl, specs, untimedAll, List.filterMap_map,
      spec?_untimed]
  | funcDecl m h b => cases b <;> rfl
  | _ => rfl

/-! ## The tree and the report -/

namespace SourceFile

/-- The start variables of `n` functions of a file: the names one run of the allocator hands out when the
identifiers spelled in the file are taken. -/
def startVariables (f : SourceFile) (s : Settings) (n : Nat) : List Text :=
  (Names.allocateAll ⟨f.identifiers⟩ (List.replicate n (utf8 s.startIdentifier))).1

/-- What is to be printed for the file `f` under the settings `s`: the tree, the functions timed, and the
imports added. -/
structure Timing (f : SourceFile) (s : Settings) (tree : SourceFile)
    (functions : List TimedFunction) (added : List Text) : Prop where
  /-- Each candidate, in pre-order, gets a pair for its qualified name and its own start variable in front
  of its old statements. -/
  candidates :
    let cs := f.toNode.candidates (utf8 s.skipPrefix)
    List.Forall₂
      (fun c new => c.1.TimedBy (utf8 s.skipPrefix)
        (Pair.build (utf8 s.reportTemplate) c.1.head.qualifiedName c.2) new)
      (cs.zip (f.startVariables s cs.length)) (tree.toNode.candidates (utf8 s.skipPrefix))
  /-- Every other function keeps its own statements, or its lack of a body. -/
  skipped :
    List.Forall₂ (Function.KeptAs (utf8 s.skipPrefix)) (f.toNode.skipped (utf8 s.skipPrefix))
      (tree.toNode.skipped (utf8 s.skipPrefix))
  /-- Without the pairs, the tree is the old one with imports added. -/
  rest : AddedAll added f.decls (untimedAll (utf8 s.skipPrefix) tree.decls)
  mark : tree.mark = f.mark
  identifiers : tree.identifiers = f.identifiers
  /-- The candidates are reported in pre-order, each with its start variable and its line. -/
  report :
    let cs := f.toNode.candidates (utf8 s.skipPrefix)
    functions = reportOn cs (f.startVariables s cs.length) ∧
      (f.startVariables s cs.length).length = cs.length
  /-- There is one progress line for each of them. -/
  progress :
    functions.map TimedFunction.progress = (f.toNode.candidates (utf8 s.skipPrefix)).map fun c =>
      utf8 "added timing to function " ++ c.head.qualifiedName
  /-- The imports added are the required ones that were missing. -/
  imports : added = requiredImports.filter fun path => !f.hasImport path

theorem length_startVariables (f : SourceFile) (s : Settings) (n : Nat) :
    (f.startVariables s n).length = n := by
  rw [startVariables, Names.length_allocateAll, List.length_replicate]

theorem progress_reportOn (functions : List Function) (ids : List Text)
    (h : functions.length ≤ ids.length) :
    (reportOn functions ids).map TimedFunction.progress =
      functions.map fun c => utf8 "added timing to function " ++ c.head.qualifiedName := by
  induction functions generalizing ids with
  | nil => rfl
  | cons c cs ih =>
    cases ids with
    | nil => exact absurd h (by simp)
    | cons id ids =>
      rw [reportOn, List.zipWith_cons_cons, List.map_cons, List.map_cons]
      exact congrArg _ (ih ids (by simpa using h))

/-- Instrumenting a file weaves its functions, and taking the pairs out gives its declarations back. -/
theorem instrument_weaves (f : SourceFile) (plan : Plan) (names : Names) :
    (f.instrument plan names).1.mark = f.mark ∧
      (f.instrument plan names).1.identifiers = f.identifiers ∧
      untimedAll plan.skipPrefix (f.instrument plan names).1.decls = f.decls ∧
      Weaves plan f.toNode.functions ⟨names, []⟩ (f.instrument plan names).1.toNode.functions
        (f.instrument plan names).2 := by
  obtain ⟨hu, hw⟩ := instrumentAll_weaves plan f.decls ⟨names, []⟩
  refine ⟨rfl, rfl, hu, ?_⟩
  simpa [toNode, instrument] using hw

theorem hasImport_instrument (f : SourceFile) (plan : Plan) (names : Names) :
    (f.instrument plan names).1.hasImport = f.hasImport := by
  obtain ⟨-, -, hu, -⟩ := f.instrument_weaves plan names
  funext path
  rw [hasImport, hasImport, imports_eq_of_untimedAll plan.skipPrefix hu]

theorem eraseDups_required (q : Text → Bool) :
    (requiredImports.filter q).eraseDups = requiredImports.filter q := by
  cases ht : q timePackage <;> cases hf : q fmtPackage <;>
    simp [requiredImports, ht, hf] <;> decide +kernel

/-- The tree of a transformation, before it is printed, is timed as it should be. -/
theorem timing_instrument (f : SourceFile) (s : Settings) :
    let timed := f.instrument s.plan ⟨f.identifiers⟩
    let finished := timed.1.ensureImports requiredImports
    Timing f s finished.2 timed.2.timed finished.1 := by
  obtain ⟨hmark, hids, hu, hw⟩ := f.instrument_weaves s.plan ⟨f.identifiers⟩
  set timed := (f.instrument s.plan ⟨f.identifiers⟩).1 with htimed
  obtain ⟨hmark', hids', hadded⟩ := timed.ensureImports_added requiredImports
  have hfun : (timed.ensureImports requiredImports).2.toNode.functions = timed.toNode.functions := by
    simpa [toNode] using functions_of_addedAll hadded
  obtain ⟨htimedFns, -⟩ := hw.progress_eq
  have hcands := hw.candidates
  have hskipped := hw.skipped
  rw [← hfun] at hcands hskipped
  refine ⟨hcands, hskipped, ?_, hmark'.trans hmark, hids'.trans hids, ⟨?_, ?_⟩, ?_, ?_⟩
  · rw [← hu]
    exact addedAll_untimedAll _ hadded
  · rw [htimedFns]
    rfl
  · exact f.length_startVariables s _
  · rw [htimedFns, List.nil_append]
    exact progress_reportOn _ _ (f.length_startVariables s _).ge
  · have hhas : timed.hasImport = f.hasImport := f.hasImport_instrument s.plan _
    rw [ensureImports_fst, hhas, eraseDups_required]

/-- **A transformation inserts one pair into each candidate, adds the missing imports, and changes nothing
else**; its report lists the candidates in pre-order. -/
theorem transform_timing (f : SourceFile) (s : Settings) :
    ∃ tree functions added, Timing f s tree functions added ∧
      f.transform s =
        (tree.render s.indent).map fun text => ⟨tree, text, functions, added⟩ :=
  ⟨_, _, _, f.timing_instrument s, rfl⟩

end SourceFile

end Stopwatch
