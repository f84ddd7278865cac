import Mathlib
import Stopwatch.Proofs.Imports
import Stopwatch.Proofs.Transformation

/-!
# The names that imports bind

An import binds its alias, or without one the last element of its path; `_` and `.` bind nothing. Whether a
required package still has to be imported is decided by its path, so an import of another package under the
same name goes unnoticed: the new import then binds the name a second time.

Results:
* `SourceFile.imports_ensureImports_perm`: the imports of a file after the missing ones were added.
* `SourceFile.ensureImports_binds_iff`: names that were bound once are still bound once, and the required
  names by the required packages, exactly when no other package had one of these names before.
-/

namespace Stopwatch

/-- The name an import binds. -/
def ImportSpec.boundName? (s : ImportSpec) : Option Text :=
  match s.name with
  | none => some s.defaultName
  | some n => if n = utf8 "_" ∨ n = utf8 "." then none else some n

namespace SourceFile

/-- The names that the imports of a file bind, in order. -/
def boundNames (f : SourceFile) : List Text := f.imports.filterMap ImportSpec.boundName?

/-- Exactly one import binds `name`, and it imports the package of that path. -/
def BindsOnce (f : SourceFile) (name : Text) : Prop :=
  ∃ s, f.imports.filter (fun s => s.boundName? == some name) = [s] ∧ s.path = name

instance (f : SourceFile) (name : Text) : Decidable (f.BindsOnce name) :=
  match h : f.imports.filter (fun s => s.boundName? == some name) with
  | [s] =>
    if hs : s.path = name then .isTrue ⟨s, h, hs⟩
    else .isFalse fun ⟨t, ht, hpath⟩ => by
      obtain rfl := (List.cons.inj (h.symm.trans ht)).1
      exact hs hpath
  | [] => .isFalse fun ⟨t, ht, _⟩ => List.cons_ne_nil t [] (ht.symm.trans h)
  | s :: t :: rest => .isFalse fun ⟨u, hu, _⟩ => by
      have htail := (List.cons.inj (h.symm.trans hu)).2
      exact List.cons_ne_nil t rest htail

end SourceFile

/-! ## The imports after adding some -/

namespace SourceFile

open Imports

theorem imports_perm_of_added {f g : SourceFile} {path : Text} {ds es : List Node}
    (h : Added path ds es) (hf : f.decls = ds) (hg : g.decls = es) :
    g.imports.Perm (newSpec path :: f.imports) := by
  unfold imports
  rw [hf, hg]
  cases h with
  | entry before after m left right grouped =>
    simp only [specs, List.flatMap_append, List.flatMap_cons, List.filterMap_append,
      List.filterMap_cons, newEntry, Node.spec?, List.append_assoc, List.cons_append]
    rw [← List.append_assoc, ← List.append_assoc]
    exact List.perm_middle
  | decl before after =>
    simp only [specs, List.flatMap_append, List.flatMap_cons, List.filterMap_cons,
      List.filterMap_nil, newEntry, Node.spec?]
    exact List.perm_middle

/-- **Adding the missing imports adds their specs**, and no spec is lost or changed. -/
theorem imports_ensureImports_perm (f : SourceFile) (paths : List Text) :
    (f.ensureImports paths).2.imports.Perm
      ((f.ensureImports paths).1.map newSpec ++ f.imports) := by
  induction paths generalizing f with
  | nil => exact .refl _
  | cons path paths ih =>
    unfold ensureImports
    split
    · exact ih f
    · have hadd := imports_perm_of_added (add_added path f.decls) rfl
        (rfl : (f.addImport path).decls = _)
      exact (ih (f.addImport path)).trans ((hadd.append_left _).trans List.perm_middle)

end SourceFile

/-! ## The names bound after that -/

theorem boundName?_newSpec {path : Text} (h : path.afterLastSlash = path) :
    (Imports.newSpec path).boundName? = some path := by
  rw [ImportSpec.boundName?, Imports.newSpec, ImportSpec.defaultName, h]

/-- A required package has its own path for a name, and that name is neither of the two that bind nothing. -/
theorem afterLastSlash_required : ∀ path ∈ requiredImports,
    path.afterLastSlash = path ∧ path ≠ utf8 "_" ∧ path ≠ utf8 "." := by
  decide +kernel

theorem nodup_required : requiredImports.Nodup := by
  decide +kernel

/-- An import of a required package counts exactly when it binds the package's name. -/
theorem ImportSpec.bindsDefaultName_iff {s : ImportSpec} (h : s.path ∈ requiredImports) :
    s.bindsDefaultName = true ↔ s.boundName? = some s.path := by
  obtain ⟨hslash, hblank, hdot⟩ := afterLastSlash_required s.path h
  unfold bindsDefaultName boundName? defaultName
  rw [hslash]
  cases s.name with
  | none => simp
  | some n =>
    by_cases hn : n = s.path
    · simp [hn, hblank, hdot]
    · simp only [beq_iff_eq, hn, false_iff]
      split
      · simp
      · simpa using hn

namespace SourceFile

open Imports

variable {f : SourceFile}

theorem mem_boundNames {name : Text} :
    name ∈ f.boundNames ↔ ∃ s ∈ f.imports, s.boundName? = some name :=
  List.mem_filterMap

/-- Where names are bound once, the import that binds a name is the only one to do so. -/
theorem filter_binders_eq {ss : List ImportSpec} (h : (ss.filterMap ImportSpec.boundName?).Nodup)
    {s : ImportSpec} {name : Text} (hs : s ∈ ss) (hname : s.boundName? = some name) :
    ss.filter (fun t => t.boundName? == some name) = [s] := by
  obtain ⟨before, after, rfl⟩ := List.append_of_mem hs
  rw [List.filterMap_append, List.filterMap_cons_some hname] at h
  have hnot : name ∉ before.filterMap ImportSpec.boundName? ++
      after.filterMap ImportSpec.boundName? := (List.nodup_middle.mp h).notMem
  have hnone : ∀ ts : List ImportSpec, name ∉ ts.filterMap ImportSpec.boundName? →
      ts.filter (fun t => t.boundName? == some name) = [] := by
    intro ts hts
    refine List.filter_eq_nil_iff.mpr fun t ht hbinds => hts ?_
    exact List.mem_filterMap.mpr ⟨t, ht, beq_iff_eq.mp hbinds⟩
  rw [List.mem_append, not_or] at hnot
  rw [List.filter_append, List.filter_cons_of_pos (by simp [hname]), hnone before hnot.1,
    hnone after hnot.2]
  rfl

/-- The names bound after adding missing imports: theirs, and those that were bound before. -/
theorem boundNames_ensureImports_perm {paths : List Text}
    (h : ∀ path ∈ paths, path.afterLastSlash = path) :
    (f.ensureImports paths).2.boundNames.Perm ((f.ensureImports paths).1 ++ f.boundNames) := by
  have hperm := (f.imports_ensureImports_perm paths).filterMap ImportSpec.boundName?
  have hnames : ∀ added : List Text, (∀ path ∈ added, path.afterLastSlash = path) →
      (added.map newSpec).filterMap ImportSpec.boundName? = added := by
    intro added hadded
    rw [List.filterMap_map]
    exact (List.filterMap_eq_map_iff_forall_eq_some.mpr fun path hpath =>
      boundName?_newSpec (hadded path hpath)).trans (List.map_id _)
  rw [List.filterMap_append, hnames _ fun path hpath => h path ?_] at hperm
  · exact hperm
  · rw [ensureImports_fst] at hpath
    exact List.mem_of_mem_filter (List.mem_eraseDups.mp hpath)

/-- If nothing else has a required name, a missing package finds its name free. -/
theorem notMem_boundNames_of_missing {path : Text} (hpath : path ∈ requiredImports)
    (hother : ∀ s ∈ f.imports, s.boundName? = some path → s.path = path)
    (hmissing : f.hasImport path = false) : path ∉ f.boundNames := by
  intro hmem
  obtain ⟨s, hs, hname⟩ := mem_boundNames.mp hmem
  obtain rfl := hother s hs hname
  have hhas : f.hasImport s.path = true :=
    List.any_eq_true.mpr ⟨s, hs, by simp [(ImportSpec.bindsDefaultName_iff hpath).mpr hname]⟩
  rw [hmissing] at hhas
  exact Bool.false_ne_true hhas

/-- After adding the required packages, each of them is imported under its name. -/
theorem exists_binder {path : Text} (hpath : path ∈ requiredImports) :
    ∃ s ∈ (f.ensureImports requiredImports).2.imports, s.boundName? = some path ∧ s.path = path := by
  have hmem := fun s => ((f.imports_ensureImports_perm requiredImports).mem_iff (a := s)).mpr
  cases hhas : f.hasImport path with
  | true =>
    obtain ⟨s, hs, hbinds⟩ := List.any_eq_true.mp hhas
    simp only [Bool.and_eq_true, beq_iff_eq] at hbinds
    obtain ⟨rfl, hbinds⟩ := hbinds
    exact ⟨s, hmem s (List.mem_append_right _ hs),
      (ImportSpec.bindsDefaultName_iff hpath).mp hbinds, rfl⟩
  | false =>
    refine ⟨newSpec path, hmem _ (List.mem_append_left _ (List.mem_map_of_mem ?_)),
      boundName?_newSpec (afterLastSlash_required path hpath).1, rfl⟩
    rw [ensureImports_fst, List.mem_eraseDups]
    exact List.mem_filter.mpr ⟨hpath, by simp [hhas]⟩

/-- **The required packages are bound to their names, and all names once, exactly when no other package had
one of these names before.** -/
theorem ensureImports_binds_iff (f : SourceFile) (h : f.boundNames.Nodup) :
    ((f.ensureImports requiredImports).2.boundNames.Nodup ∧
      (f.ensureImports requiredImports).2.BindsOnce timePackage ∧
      (f.ensureImports requiredImports).2.BindsOnce fmtPackage) ↔
    ∀ path ∈ requiredImports, ∀ s ∈ f.imports, s.boundName? = some path → s.path = path := by
  constructor
  · rintro ⟨-, htime, hfmt⟩ path hpath s hs hname
    have honce : (f.ensureImports requiredImports).2.BindsOnce path := by
      rcases List.mem_cons.mp hpath with rfl | hpath
      · exact htime
      · rw [List.mem_singleton.mp hpath]
        exact hfmt
    -- The import is still there, so it is the one that binds the name.
    obtain ⟨t, hfilter, ht⟩ := honce
    have hmem : s ∈ (f.ensureImports requiredImports).2.imports :=
      (f.imports_ensureImports_perm requiredImports).mem_iff.mpr (List.mem_append_right _ hs)
    have hbinder : s ∈ (f.ensureImports requiredImports).2.imports.filter
        (fun s => s.boundName? == some path) := List.mem_filter.mpr ⟨hmem, by simp [hname]⟩
    rw [hfilter, List.mem_singleton] at hbinder
    rwa [hbinder]
  · intro hother
    have hnodup : (f.ensureImports requiredImports).2.boundNames.Nodup := by
      have hslash := fun path hpath => (afterLastSlash_required path hpath).1
      rw [(boundNames_ensureImports_perm hslash).nodup_iff, List.nodup_append', ensureImports_fst]
      rw [eraseDups_required]
      refine ⟨nodup_required.filter _, h, fun path hadded => ?_⟩
      obtain ⟨hpath, hmissing⟩ := List.mem_filter.mp hadded
      exact notMem_boundNames_of_missing hpath (hother path hpath) (by simpa using hmissing)
    have honce : ∀ path ∈ requiredImports, (f.ensureImports requiredImports).2.BindsOnce path := by
      intro path hpath
      obtain ⟨s, hs, hname, hspath⟩ := exists_binder (f := f) hpath
      exact ⟨s, filter_binders_eq hnodup hs hname, hspath⟩
    exact ⟨hnodup, honce _ (by simp [requiredImports]), honce _ (by simp [requiredImports])⟩

/-- A file with a renamed and a blank import. -/
def renamedImports : SourceFile where
  decls := [.packageClause {} (utf8 "main"),
    .importDecl {} [.importSpec {} ⟨utf8 "fmt", utf8 "\"fmt\"", some (utf8 "f")⟩,
      .importSpec {} ⟨utf8 "time", utf8 "\"time\"", some (utf8 "_")⟩] true]

theorem ensureImports_binds_iff_renamed :
    renamedImports.boundNames.Nodup ∧
      (renamedImports.ensureImports requiredImports).2.boundNames.Nodup ∧
      (renamedImports.ensureImports requiredImports).2.BindsOnce timePackage ∧
      (renamedImports.ensureImports requiredImports).2.BindsOnce fmtPackage := by
  have h : renamedImports.boundNames.Nodup := by decide +kernel
  exact ⟨h, (ensureImports_binds_iff renamedImports h).mpr (by decide +kernel)⟩

/-- A file that imports another package of the name `time`. -/
def otherTime : SourceFile where
  decls := [.packageClause {} (utf8 "main"),
    .importDecl {} [.importSpec {} ⟨utf8 "example/time", utf8 "\"example/time\"", none⟩] false]

/-- Another package of a required name is not noticed, and the name is then bound twice. -/
theorem ensureImports_binds_twice :
    otherTime.boundNames.Nodup ∧
      ¬ (otherTime.ensureImports requiredImports).2.boundNames.Nodup ∧
      ¬ (otherTime.ensureImports requiredImports).2.BindsOnce timePackage := by
  decide +kernel

end SourceFile

end Stopwatch
