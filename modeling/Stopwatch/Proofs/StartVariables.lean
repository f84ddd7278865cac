import Mathlib
import Stopwatch.Proofs.Items
import Stopwatch.Proofs.Leaves
import Stopwatch.Proofs.Transformation

/-!
# Start variables

The allocator is asked once per candidate, with the identifiers of the file taken from the start. Those
are collected from the tokens of the concrete tree, so a start variable can clash with nothing that the
file spells, wherever it stands.

Results:
* `FreshRun`: what any run of the allocator guarantees, from any names taken and for any base names.
* `names_fresh_everywhere`: every run of the allocator is such a run, and the start variables that a
  transformation inserts are different from each other and from every identifier of the concrete tree.
-/

namespace Stopwatch

/-- The names `names` handed out in turn for the base names `bases`, with `taken` taken from the start. -/
structure FreshRun (taken bases names : List Text) : Prop where
  /-- Every call gives a name. -/
  length : names.length = bases.length
  nodup : names.Nodup
  notMem : ∀ name ∈ names, name ∉ taken
  isIdentifier : ∀ name ∈ names, name.IsIdentifier
  /-- Each is the first of `base`, `base2`, `base3`, … that is not taken and was not handed out before. -/
  isFirstFree : ∀ i base, bases[i]? = some base → ∃ name, names[i]? = some name ∧
    Names.IsFirstFree (fun x => x ∈ taken ∨ x ∈ names.take i) (Names.normalize base) name

theorem Names.allocateAll_freshRun (taken bases : List Text) :
    FreshRun taken bases (Names.allocateAll ⟨taken⟩ bases).1 where
  length := length_allocateAll _ _
  nodup := allocateAll_nodup _ _
  notMem := allocateAll_fresh _ _
  isIdentifier := isIdentifier_allocateAll _ _
  isFirstFree := allocateAll_isFirstFree _ _

/-! ## The start variables in a tree -/

/-- The variable that the first statement of a function's body introduces. -/
def Function.startVariable? (f : Function) : Option Text :=
  match f.body with
  | some ⟨_, .assignStmt _ [.ident _ name] _ _ :: _⟩ => some name
  | _ => none

theorem Function.TimedBy.startVariable?_eq {skip template name identifier : Text}
    {old new : Function} (h : old.TimedBy skip (Pair.build template name identifier) new) :
    new.startVariable? = some identifier := by
  obtain ⟨mark, stmts, -, rfl⟩ := h
  rfl

theorem identifier_reportOn {functions : List Function} {identifiers : List Text}
    (h : identifiers.length = functions.length) :
    (reportOn functions identifiers).map TimedFunction.identifier = identifiers := by
  induction functions generalizing identifiers with
  | nil => rw [List.length_eq_zero_iff.mp h]; rfl
  | cons f functions ih =>
    cases identifiers with
    | nil => exact absurd h (by simp)
    | cons id identifiers =>
      rw [reportOn, List.zipWith_cons_cons, List.map_cons]
      exact congrArg _ (ih (by simpa using h))

/-- Functions timed in turn introduce the start variables in turn. -/
theorem startVariable?_of_forall₂ {skip template : Text} {functions news : List Function}
    {identifiers : List Text} (hlen : identifiers.length = functions.length)
    (h : List.Forall₂ (fun c new => Function.TimedBy skip
      (Pair.build template c.1.head.qualifiedName c.2) c.1 new) (functions.zip identifiers) news) :
    news.map Function.startVariable? = identifiers.map some := by
  induction functions generalizing identifiers news with
  | nil =>
    cases h
    rw [List.length_eq_zero_iff.mp hlen]
    rfl
  | cons f functions ih =>
    cases identifiers with
    | nil => exact absurd hlen (by simp)
    | cons id identifiers =>
      rw [List.zip_cons_cons] at h
      cases h with
      | cons hnew hrest =>
        rw [List.map_cons, List.map_cons, hnew.startVariable?_eq,
          ih (by simpa using hlen) hrest]

/-! ## Against the concrete tree -/

/-- The kinds of tokens that spell an identifier. -/
def identifierKinds : List String :=
  ["identifier", "field_identifier", "type_identifier", "package_identifier", "label_name"]

theorem isIdentifierKind_iff (kind : String) :
    Load.isIdentifierKind kind = true ↔ kind ∈ identifierKinds := by
  simp [Load.isIdentifierKind, identifierKinds, or_assoc]

theorem isTerminatorKind_of_mem {kind : String} (h : kind ∈ identifierKinds) :
    Cst.isTerminatorKind kind = false := by
  revert kind
  decide

/-- A loaded file knows every identifier that its concrete tree spells, at any depth. -/
theorem mem_identifiers_build (source : Source) {root : Cst} {i : CstInfo}
    (h : (Cst.node i []).Within root) (hkind : i.kind ∈ identifierKinds) (hne : i.start ≠ i.stop) :
    source.slice i.start i.stop ∈ (SourceFile.build source root).identifiers := by
  obtain ⟨parent, hleaf⟩ := Cst.mem_leaves_of_within h (isTerminatorKind_of_mem hkind) hne ""
  refine List.mem_filterMap.mpr ⟨_, hleaf, ?_⟩
  rw [if_pos ((isIdentifierKind_iff i.kind).mpr hkind)]

/-- **Start variables are fresh over whole runs**: every run of the allocator hands out the first free
names, and no start variable of a transformed file is spelled in it or used twice. -/
theorem names_fresh_everywhere (text : Text) (root : Cst) (f : SourceFile) (s : Settings)
    (hload : SourceFile.ofCst text root = .ok f) :
    (∀ taken bases, FreshRun taken bases (Names.allocateAll ⟨taken⟩ bases).1) ∧
    ∃ (tree : SourceFile) (functions : List TimedFunction) (added : List Text),
      (f.transform s = (tree.render s.indent).map fun out => ⟨tree, out, functions, added⟩) ∧
      (tree.toNode.candidates (utf8 s.skipPrefix)).map Function.startVariable? =
        functions.map (fun t => some t.identifier) ∧
      (functions.map TimedFunction.identifier).Nodup ∧
      ∀ i : CstInfo, (Cst.node i []).Within root → i.kind ∈ identifierKinds → i.start ≠ i.stop →
        ∀ t ∈ functions, (Source.ofText text).slice i.start i.stop ≠ t.identifier := by
  refine ⟨Names.allocateAll_freshRun, ?_⟩
  have htiming := f.timing_instrument s
  set timed := f.instrument s.plan ⟨f.identifiers⟩
  refine ⟨(timed.1.ensureImports requiredImports).2, timed.2.timed, _, rfl, ?_⟩
  obtain ⟨hreport, hlen⟩ := htiming.report
  set ids := f.startVariables s (f.toNode.candidates (utf8 s.skipPrefix)).length with hids
  have hidentifiers : timed.2.timed.map TimedFunction.identifier = ids := by
    rw [hreport]
    exact identifier_reportOn hlen
  have hrun := Names.allocateAll_freshRun f.identifiers
    (List.replicate (f.toNode.candidates (utf8 s.skipPrefix)).length (utf8 s.startIdentifier))
  refine ⟨?_, ?_, ?_⟩
  · rw [startVariable?_of_forall₂ hlen htiming.candidates, ← hidentifiers, List.map_map]
    rfl
  · rw [hidentifiers]
    exact hrun.nodup
  · intro i hi hkind hne t ht heq
    have hmem : t.identifier ∈ ids := by
      rw [← hidentifiers]
      exact List.mem_map_of_mem ht
    refine hrun.notMem _ hmem ?_
    rw [← heq, Load.ofCst_eq_build hload]
    exact mem_identifiers_build _ hi hkind hne

theorem names_fresh_everywhere_sample :
    ∃ (tree : SourceFile) (functions : List TimedFunction) (added : List Text),
      ((SourceFile.build (Source.ofText Sample.text) Sample.tree).transform {} =
        (tree.render (Settings.indent {})).map fun out => ⟨tree, out, functions, added⟩) ∧
      ∀ t ∈ functions, (Source.ofText Sample.text).slice 50 57 ≠ t.identifier := by
  obtain ⟨-, tree, functions, added, htransform, -, -, hfresh⟩ :=
    names_fresh_everywhere Sample.text Sample.tree _ {} Sample.ofCst_eq
  refine ⟨tree, functions, added, htransform, ?_⟩
  refine hfresh ⟨"identifier", 50, 57, true, false, false, none⟩ ?_ (by decide) (by decide)
  have hbody : (Sample.named "identifier" 50 57 none).Within Sample.body :=
    .child (List.mem_cons_of_mem _ List.mem_cons_self)
      (.child List.mem_cons_self (.child List.mem_cons_self .self))
  have hfunction : (Sample.named "identifier" 50 57 none).Within Sample.function :=
    .child (d := Sample.body) (List.mem_of_getElem? (i := 3) rfl) hbody
  exact .child (d := Sample.function) (List.mem_of_getElem? (i := 4) rfl) hfunction

end Stopwatch
