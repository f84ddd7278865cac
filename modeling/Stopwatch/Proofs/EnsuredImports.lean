import Mathlib
import Stopwatch.Proofs.BoundNames
import Stopwatch.Proofs.Placement

/-!
# Ensuring imports

Every import that is added changes the file in which the next one is placed. `Imports.Ensured` tells what
the declarations come to, however many were added: each old one is still there, in order, and either as it
was or an import declaration with new entries; each new one stands behind another import, or behind the
package clause.

Results:
* `Imports.Ensured.add`: adding one more import keeps that relation, wherever it goes.
* `SourceFile.length_decls_le`: as long as `"C"` is not imported, only the first import makes a declaration.
* `SourceFile.ensureImports_ensured`: what ensuring imports adds, and what it leaves alone.
-/

namespace Stopwatch

namespace Imports

/-- Behind the declaration `prior`, the declarations `ds` have become `es` by imports that were added. `bare`
says that the file had none. -/
inductive Ensured (bare : Prop) : Option Node → List Node → List Node → Prop
  | nil (prior : Option Node) : Ensured bare prior [] []
  /-- A declaration is as it was. -/
  | kept {prior : Option Node} {ds es : List Node} (d : Node) (rest : Ensured bare (some d) ds es) :
      Ensured bare prior (d :: ds) (d :: es)
  /-- An import declaration without `"C"` has new entries between the old ones, and is grouped if it holds
  several. -/
  | widened {prior : Option Node} {ds es ss ts : List Node} {m : Mark} {grouped : Bool} {news : List Text}
      (opened : ¬ ImportsC ss) (order : List.Sublist ss ts) (gained : news ≠ [])
      (entries : ts.Perm (news.map newEntry ++ ss))
      (rest : Ensured bare (some (.importDecl m ts (grouped || decide (1 < ts.length)))) ds es) :
      Ensured bare prior (.importDecl m ss grouped :: ds)
        (.importDecl m ts (grouped || decide (1 < ts.length)) :: es)
  /-- A declaration is new: it holds new entries only, and stands behind another import, or behind the
  package clause of a file without imports. -/
  | fresh {ds es ts : List Node} {n : Node} {news : List Text}
      (behind : n.isImportDecl = true ∨ bare ∧ n.isPackageClause = true) (gained : news ≠ [])
      (entries : ts.Perm (news.map newEntry))
      (rest : Ensured bare (some (.importDecl {} ts (decide (1 < ts.length)))) ds es) :
      Ensured bare (some n) ds (.importDecl {} ts (decide (1 < ts.length)) :: es)

namespace Ensured

variable {bare : Prop} {prior : Option Node} {ds es us vs xs ys : List Node} {path : Text}

theorem refl (bare : Prop) (prior : Option Node) (ds : List Node) : Ensured bare prior ds ds := by
  induction ds generalizing prior with
  | nil => exact .nil prior
  | cons d ds ih => exact .kept d (ih _)

/-- The declaration in front matters to a new one only, and behind an import one may always stand. -/
theorem behind_import {n : Node} (h : Ensured bare prior ds es) (hn : n.isImportDecl = true) :
    Ensured bare (some n) ds es := by
  cases h with
  | nil => exact .nil _
  | kept d rest => exact .kept d rest
  | widened opened order gained entries rest => exact .widened opened order gained entries rest
  | fresh _ gained entries rest => exact .fresh (.inl hn) gained entries rest

/-- The declaration in front of what follows `xs`. -/
private theorem prior_cons (x : Node) (xs : List Node) (prior : Option Node) :
    (x :: xs).getLast?.or prior = xs.getLast?.or (some x) := by
  rw [List.getLast?_cons]
  cases xs.getLast? <;> rfl

/-- What came out in two parts came from two parts. -/
theorem split (h : Ensured bare prior ds (xs ++ ys)) :
    ∃ us vs, ds = us ++ vs ∧ Ensured bare prior us xs ∧ Ensured bare (xs.getLast?.or prior) vs ys := by
  induction xs generalizing prior ds with
  | nil => exact ⟨[], ds, rfl, .nil _, h⟩
  | cons x xs ih =>
    rw [prior_cons]
    cases h with
    | kept d rest =>
      obtain ⟨us, vs, rfl, hus, hvs⟩ := ih rest
      exact ⟨x :: us, vs, rfl, .kept x hus, hvs⟩
    | widened opened order gained entries rest =>
      obtain ⟨us, vs, rfl, hus, hvs⟩ := ih rest
      exact ⟨_ :: us, vs, rfl, .widened opened order gained entries hus, hvs⟩
    | fresh behind gained entries rest =>
      obtain ⟨us, vs, rfl, hus, hvs⟩ := ih rest
      exact ⟨us, vs, rfl, .fresh behind gained entries hus, hvs⟩

theorem append (h : Ensured bare prior us xs) (h' : Ensured bare (xs.getLast?.or prior) vs ys) :
    Ensured bare prior (us ++ vs) (xs ++ ys) := by
  induction h with
  | nil prior => exact h'
  | kept d rest ih => exact .kept d (ih (by rwa [prior_cons] at h'))
  | widened opened order gained entries rest ih =>
    exact .widened opened order gained entries (ih (by rwa [prior_cons] at h'))
  | fresh behind gained entries rest ih =>
    exact .fresh behind gained entries (ih (by rwa [prior_cons] at h'))

/-- A declaration that was grouped for its entries is grouped for more entries as well. -/
private theorem decide_several_or {n k : Nat} (h : n ≤ k) :
    (decide (1 < n) || decide (1 < k)) = decide (1 < k) := by
  rw [← Bool.decide_or]
  exact decide_eq_decide.mpr (by omega)

/-- The declaration that a new entry goes into was there before, or is new itself. -/
theorem entry (path : Text) (left : List Node) {right after : List Node} {m : Mark} {grouped : Bool}
    (opened : ¬ ImportsC (left ++ right))
    (h : Ensured bare prior ds (.importDecl m (left ++ right) grouped :: after)) :
    Ensured bare prior ds (.importDecl m (left ++ newEntry path :: right)
      (grouped || decide (1 < (left ++ newEntry path :: right).length)) :: after) := by
  have hsub : List.Sublist (left ++ right) (left ++ newEntry path :: right) :=
    (List.sublist_cons_self _ right).append_left left
  have hperm : (left ++ newEntry path :: right).Perm (newEntry path :: (left ++ right)) :=
    List.perm_middle
  have hgrouped := decide_several_or hsub.length_le
  cases h with
  | kept d rest =>
    exact .widened opened hsub (List.cons_ne_nil path []) hperm (rest.behind_import rfl)
  | @widened _ _ _ _ _ _ _ news hss order gained entries rest =>
    rw [Bool.or_assoc, hgrouped]
    exact .widened hss (order.trans hsub) (List.cons_ne_nil path news)
      (hperm.trans (entries.cons _)) (rest.behind_import rfl)
  | @fresh _ _ _ _ news behind gained entries rest =>
    rw [hgrouped]
    exact .fresh behind (List.cons_ne_nil path news) (hperm.trans (entries.cons _))
      (rest.behind_import rfl)

/-- What is no import declaration is kept. -/
theorem mem_of_mem (h : Ensured bare prior ds es) {d : Node} (hd : d ∈ ds) (hother : d.isImportDecl = false) :
    d ∈ es := by
  induction h with
  | nil => exact hd
  | kept c rest ih =>
    rcases List.mem_cons.mp hd with rfl | hd
    · exact List.mem_cons_self
    · exact List.mem_cons_of_mem _ (ih hd)
  | widened _ _ _ _ rest ih =>
    rcases List.mem_cons.mp hd with rfl | hd
    · cases hother
    · exact List.mem_cons_of_mem _ (ih hd)
  | fresh _ _ _ rest ih => exact List.mem_cons_of_mem _ (ih hd)

/-- No import declaration is lost. -/
theorem no_import (h : Ensured bare prior ds es) (hnone : ∀ e ∈ es, e.isImportDecl = false) :
    ∀ d ∈ ds, d.isImportDecl = false := by
  induction h with
  | nil => simp
  | kept c rest ih =>
    rw [List.forall_mem_cons] at hnone ⊢
    exact ⟨hnone.1, ih hnone.2⟩
  | widened _ _ _ _ rest ih => cases (List.forall_mem_cons.mp hnone).1
  | fresh _ _ _ rest ih => exact ih (List.forall_mem_cons.mp hnone).2

/-- **One more import keeps what is known of the declarations**, in whichever place it belongs. -/
theorem add (hbare : (∀ d ∈ ds, d.isImportDecl = false) → bare)
    (hclause : ∃ d ∈ ds, d.isPackageClause = true) (h : Ensured bare none ds es) (path : Text) :
    Ensured bare none ds (Imports.add path es) := by
  generalize hadded : Imports.add path es = added
  have hplaced := add_placed path es
  rw [hadded] at hplaced
  -- A declaration of its own goes behind the one it was given as its place.
  have halone : ∀ before n after, es = before ++ n :: after →
      (n.isImportDecl = true ∨ bare ∧ n.isPackageClause = true) →
      Ensured bare none ds (before ++ n :: .importDecl {} [newEntry path] false :: after) := by
    rintro before n after rfl hn
    rw [List.append_cons] at h ⊢
    obtain ⟨us, vs, rfl, hus, hvs⟩ := h.split
    refine hus.append ?_
    rw [List.getLast?_concat, Option.some_or] at hvs ⊢
    exact .fresh hn (List.cons_ne_nil path []) (.refl _) (hvs.behind_import rfl)
  cases hplaced with
  | @behindSpec before after left right m mark s grouped split opened earlier later =>
    rw [split, List.append_cons left] at h
    rw [List.append_cons left] at opened
    obtain ⟨us, vs, rfl, hus, hvs⟩ := h.split
    have hentry := hvs.entry path _ opened
    have hseveral : 1 < (left ++ [Node.importSpec mark s] ++ newEntry path :: right).length := by
      simp only [List.length_append, List.length_cons]
      omega
    rw [decide_eq_true hseveral, Bool.or_true] at hentry
    rw [List.append_cons left]
    exact hus.append hentry
  | @atFront before after entries m grouped split unmatched specless last =>
    rw [split] at h
    obtain ⟨us, vs, rfl, hus, hvs⟩ := h.split
    have hentry := hvs.entry path [] (not_importsC_of_specless specless)
    have hgrouped : decide (1 < ([] ++ newEntry path :: entries).length) = !entries.isEmpty := by
      cases entries <;> simp
    rw [hgrouped] at hentry
    exact hus.append hentry
  | behindImports split unmatched full decl last => exact halone _ _ _ split (.inl decl)
  | behindPackage split none clause first =>
    exact halone _ _ _ split (.inr ⟨hbare (h.no_import none), clause⟩)
  | atTop none nothing =>
    obtain ⟨d, hd, hclause⟩ := hclause
    have hother : d.isImportDecl = false := by
      cases d with
      | importDecl => cases hclause
      | _ => rfl
    have hfalse := nothing d (h.mem_of_mem hd hother)
    rw [hclause] at hfalse
    cases hfalse

end Ensured

/-! ## How many declarations are new -/

/-- An import other than `"C"` gives the next one a spec to go behind. -/
theorem openSpecs_add_ne_nil {path : Text} (hpath : path ≠ utf8 "C") (ds : List Node) :
    openSpecs (add path ds) ≠ [] := by
  have hnew : ∀ (left right : List Node) {before after : List Node} {m : Mark} {grouped : Bool},
      ¬ ImportsC (left ++ right) →
      openSpecs (before ++ .importDecl m (left ++ newEntry path :: right) grouped :: after) ≠ [] := by
    intro left right before after m grouped hopen
    have hstill : ¬ ImportsC (left ++ newEntry path :: right) := by
      rintro ⟨s, hs, hC⟩
      rw [specs_append, newEntry, specs_cons_spec, List.mem_append, List.mem_cons] at hs
      rcases hs with hs | rfl | hs
      · exact hopen ⟨s, by rw [specs_append]; exact List.mem_append_left _ hs, hC⟩
      · exact hpath hC
      · exact hopen ⟨s, by rw [specs_append]; exact List.mem_append_right _ hs, hC⟩
    rw [openSpecs_append, openSpecs_cons_decl, if_neg hstill, specs_append, newEntry, specs_cons_spec]
    simp
  have hadd := add_extends path ds
  generalize add path ds = es at hadd
  cases hadd with
  | entry before after m left right grouped opened => exact hnew left right opened
  | decl before after => exact hnew [] [] (by simp [ImportsC, specs])

theorem length_add_le (path : Text) (ds : List Node) : (add path ds).length ≤ ds.length + 1 := by
  have hadd := add_extends path ds
  generalize add path ds = es at hadd
  cases hadd with
  | entry => simp
  | decl before after => simp only [List.length_append, List.length_cons]; omega

/-- Where there is a spec to go behind, no declaration is made. -/
theorem length_add_of_open {ds : List Node} (hopen : openSpecs ds ≠ []) (path : Text) :
    (add path ds).length = ds.length := by
  have hplaced := add_placed path ds
  generalize add path ds = es at hplaced
  cases hplaced with
  | behindSpec split => simp [split]
  | atFront _ unmatched => exact absurd unmatched hopen
  | behindImports _ unmatched => exact absurd unmatched hopen
  | behindPackage _ none => exact absurd (openSpecs_of_no_import none) hopen
  | atTop none => exact absurd (openSpecs_of_no_import none) hopen

end Imports

/-! ## Several imports -/

namespace SourceFile

open Imports

/-- After ensuring imports they are there. -/
theorem hasImport_ensureImports (f : SourceFile) (paths : List Text) (q : Text) :
    (f.ensureImports paths).2.hasImport q = (paths.contains q || f.hasImport q) := by
  induction paths generalizing f with
  | nil => rfl
  | cons path paths ih =>
    unfold ensureImports
    rw [List.contains_cons]
    split
    · rename_i hhas
      rw [ih]
      by_cases hq : q = path
      · simp [hq, hhas]
      · simp [beq_eq_false_iff_ne.mpr hq]
    · simp only [ih, hasImport_addImport]
      rw [Bool.beq_comm]
      ac_rfl

theorem ensured_ensureImports {bare : Prop} {ds : List Node} (hbare : (∀ d ∈ ds, d.isImportDecl = false) → bare)
    (hclause : ∃ d ∈ ds, d.isPackageClause = true) (f : SourceFile) (paths : List Text)
    (h : Ensured bare none ds f.decls) : Ensured bare none ds (f.ensureImports paths).2.decls := by
  induction paths generalizing f with
  | nil => exact h
  | cons path paths ih =>
    unfold ensureImports
    split
    · exact ih f h
    · exact ih (f.addImport path) (h.add hbare hclause path)

/-- Where there is a spec to go behind, and `"C"` is not asked for, no declaration is made. -/
theorem length_decls_of_open {f : SourceFile} {paths : List Text} (hC : utf8 "C" ∉ paths)
    (hopen : openSpecs f.decls ≠ []) : (f.ensureImports paths).2.decls.length = f.decls.length := by
  induction paths generalizing f with
  | nil => rfl
  | cons path paths ih =>
    rw [List.mem_cons, not_or] at hC
    unfold ensureImports
    split
    · exact ih hC.2 hopen
    · exact (ih hC.2 (openSpecs_add_ne_nil (Ne.symm hC.1) f.decls)).trans (length_add_of_open hopen path)

/-- As long as `"C"` is not asked for, only the first import makes a declaration. -/
theorem length_decls_le (f : SourceFile) {paths : List Text} (hC : utf8 "C" ∉ paths) :
    (f.ensureImports paths).2.decls.length ≤ f.decls.length + 1 := by
  induction paths generalizing f with
  | nil => exact Nat.le_succ _
  | cons path paths ih =>
    rw [List.mem_cons, not_or] at hC
    unfold ensureImports
    split
    · exact ih f hC.2
    · have hrest := length_decls_of_open (f := f.addImport path) hC.2
        (openSpecs_add_ne_nil (Ne.symm hC.1) f.decls)
      exact hrest.trans_le (length_add_le path f.decls)

/-- What becomes of a file when the imports `paths` are ensured and those of `added` had been missing. -/
structure ImportsEnsured (f : SourceFile) (paths added : List Text) (g : SourceFile) : Prop where
  /-- The missing ones, each once, in the order in which they are first asked for. -/
  missing : added = (paths.filter fun p => !f.hasImport p).eraseDups
  present : ∀ p ∈ paths, g.hasImport p = true
  /-- A spec is new for each of them, and no other. -/
  imports : g.imports.Perm (added.map newSpec ++ f.imports)
  count : g.imports.length = f.imports.length + added.length
  /-- Asked for once more, nothing is missing and nothing changes. -/
  again : g.ensureImports paths = ([], g)
  mark : g.mark = f.mark
  identifiers : g.identifiers = f.identifiers
  decls : Ensured (∀ d ∈ f.decls, d.isImportDecl = false) none f.decls g.decls
  /-- Without `"C"` among them, no more than one declaration is new. -/
  single : utf8 "C" ∉ paths → g.decls.length ≤ f.decls.length + 1

/-- **Ensuring imports adds what is missing, where it belongs, and leaves the rest of the file alone.** -/
theorem ensureImports_ensured (f : SourceFile) (paths : List Text)
    (hclause : ∃ d ∈ f.decls, d.isPackageClause = true) :
    f.ImportsEnsured paths (f.ensureImports paths).1 (f.ensureImports paths).2 := by
  obtain ⟨hmark, hidentifiers, -⟩ := f.ensureImports_added paths
  have hpresent : ∀ p ∈ paths, (f.ensureImports paths).2.hasImport p = true := fun p hp => by
    rw [hasImport_ensureImports]
    simp [hp]
  have himports := f.imports_ensureImports_perm paths
  exact {
    missing := f.ensureImports_fst paths
    present := hpresent
    imports := himports
    count := by rw [himports.length_eq, List.length_append, List.length_map, Nat.add_comm]
    again := ensureImports_of_hasImport hpresent
    mark := hmark
    identifiers := hidentifiers
    decls := ensured_ensureImports id hclause f paths (.refl _ _ _)
    single := f.length_decls_le }

/-- A file with an import of `"C"`, and a comment behind its package clause. -/
def cgoFile : SourceFile where
  decls := [.packageClause {} (utf8 "main"), .comment {} (.single (utf8 "// #include <time.h>")),
    .importDecl {} [.importSpec {} ⟨utf8 "C", utf8 "\"C\"", none⟩] false]

theorem ensureImports_ensured_cgo :
    (∃ d ∈ cgoFile.decls, d.isPackageClause = true) ∧
      (cgoFile.ensureImports [fmtPackage, timePackage, fmtPackage]).1 = [fmtPackage, timePackage] ∧
      cgoFile.ImportsEnsured [fmtPackage, timePackage, fmtPackage]
        (cgoFile.ensureImports [fmtPackage, timePackage, fmtPackage]).1
        (cgoFile.ensureImports [fmtPackage, timePackage, fmtPackage]).2 := by
  have hclause : ∃ d ∈ cgoFile.decls, d.isPackageClause = true := ⟨_, List.mem_cons_self, rfl⟩
  exact ⟨hclause, by decide +kernel, ensureImports_ensured cgoFile _ hclause⟩

end SourceFile

end Stopwatch
