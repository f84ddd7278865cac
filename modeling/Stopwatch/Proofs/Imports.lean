import Mathlib
import Stopwatch.Timing.Imports

/-!
# What adding imports changes

`Imports.Added path ds ds'`: the declarations `ds'` are `ds` with one new entry for `path`, put somewhere
into an import declaration, or alone in a new one. Where exactly is not part of the relation; that nothing
else changes is.

Results:
* `Imports.add_added`: adding an import does just that. The place that the search finds lies inside the
  declarations (`Place.Inside`), so the entry is never lost. `Imports.add_extends` says besides that a
  declaration which imports `"C"` gets no entry.
* `SourceFile.ensureImports_added`: ensuring several imports adds one entry for each path that was missing,
  in order, and leaves the rest of the file alone.
* `SourceFile.ensureImports_fst`: the paths added are those that were not imported before, each once, in
  the order in which they are first asked for.
-/

namespace Stopwatch

/-- Whether a node is an import declaration. -/
def Node.isImportDecl : Node → Bool
  | importDecl .. => true
  | _ => false

namespace Imports

/-- The entry of a package imported under its own name. -/
def newEntry (path : Text) : Node := .importSpec {} (newSpec path)

/-- One import is added: to a declaration, which is grouped once it holds several entries, or in a
declaration of its own. -/
inductive Added (path : Text) : List Node → List Node → Prop
  | entry (before after : List Node) (m : Mark) (left right : List Node) (grouped : Bool) :
      Added path (before ++ .importDecl m (left ++ right) grouped :: after)
        (before ++ .importDecl m (left ++ newEntry path :: right)
          (grouped || decide (0 < (left ++ right).length)) :: after)
  | decl (before after : List Node) :
      Added path (before ++ after) (before ++ .importDecl {} [newEntry path] false :: after)

/-- Several imports are added one after another. -/
inductive AddedAll : List Text → List Node → List Node → Prop
  | nil (ds : List Node) : AddedAll [] ds ds
  | cons {path : Text} {paths : List Text} {ds es fs : List Node} (first : Added path ds es)
      (rest : AddedAll paths es fs) : AddedAll (path :: paths) ds fs

/-! ## The place for a new entry -/

/-- One of the entries imports `"C"`; such a declaration is left alone. -/
def ImportsC (entries : List Node) : Prop := ∃ s ∈ specs entries, s.path = utf8 "C"

theorem importsC_iff {entries : List Node} :
    ImportsC entries ↔ (specs entries).any (·.path == utf8 "C") = true := by
  simp [ImportsC]

/-- The place lies inside the declarations `ds`, in one that does not import `"C"`. -/
def Place.Inside (ds : List Node) : Place → Prop
  | .nowhere => True
  | .first d => ∃ m entries grouped, ds[d]? = some (.importDecl m entries grouped) ∧
      ¬ ImportsC entries
  | .after d i _ => ∃ m entries grouped, ds[d]? = some (.importDecl m entries grouped) ∧
      ¬ ImportsC entries ∧ i < entries.length

theorem inside_searchEntries (path : Text) {ds : List Node} {d : Nat} {m : Mark}
    {entries : List Node} {grouped : Bool} (hd : ds[d]? = some (.importDecl m entries grouped))
    (hopen : ¬ ImportsC entries) (i : Nat) (rest : List Node) (place : Place) (hlen : i + rest.length ≤ entries.length)
    (hplace : place.Inside ds) : (searchEntries path d i rest place).Inside ds := by
  fun_induction searchEntries path d i rest place with
  | case1 i place => exact hplace
  | case2 i m' s rest place score better ih =>
    rw [List.length_cons] at hlen
    refine ih (by omega) ?_
    split
    · exact ⟨m, entries, grouped, hd, hopen, by omega⟩
    · exact hplace
  | case3 i place n rest _ ih =>
    rw [List.length_cons] at hlen
    exact ih (by omega) hplace

theorem inside_searchDecl (path : Text) {ds : List Node} {d : Nat} {m : Mark}
    {entries : List Node} {grouped : Bool} (hd : ds[d]? = some (.importDecl m entries grouped))
    (place : Place) (hplace : place.Inside ds) : (searchDecl path d entries place).Inside ds := by
  unfold searchDecl
  split
  · exact hplace
  · rename_i hany
    have hopen : ¬ ImportsC entries := fun hC => hany (importsC_iff.mp hC)
    refine inside_searchEntries path hd hopen 0 entries _ (by omega) ?_
    split
    · exact hplace
    · exact ⟨m, entries, grouped, hd, hopen⟩
    · exact hplace

/-- The search only finds places inside the declarations it looks at. -/
theorem inside_search (path : Text) {ds : List Node} (d : Nat) (rest : List Node) (place : Place)
    (hrest : ds.drop d = rest) (hplace : place.Inside ds) : (search path d rest place).Inside ds := by
  -- What is left after one declaration is what is left of `ds` after the next index.
  have hnext : ∀ {d : Nat} {n : Node} {rest : List Node}, ds.drop d = n :: rest →
      ds[d]? = some n ∧ ds.drop (d + 1) = rest := by
    intro d n rest h
    refine ⟨?_, ?_⟩
    · rw [← List.head?_drop, h, List.head?_cons]
    · rw [← List.tail_drop, h, List.tail_cons]
  fun_induction search path d rest place with
  | case1 d place => exact hplace
  | case2 d m entries grouped rest place ih =>
    obtain ⟨hd, htail⟩ := hnext hrest
    exact ih htail (inside_searchDecl path hd place hplace)
  | case3 d place n rest _ ih => exact ih (hnext hrest).2 hplace

theorem lt_of_lastImport? {ds : List Node} {i : Nat} (h : lastImport? ds = some i) : i < ds.length := by
  obtain ⟨⟨n, j⟩, hmem, hj⟩ := List.exists_of_findSome?_eq_some h
  have hlt := List.snd_lt_of_mem_zipIdx (List.mem_reverse.mp hmem)
  cases n <;> simp at hj
  omega

theorem lt_of_packageIndex? {ds : List Node} {i : Nat} (h : packageIndex? ds = some i) :
    i < ds.length := by
  obtain ⟨⟨n, j⟩, hmem, hj⟩ := List.exists_of_findSome?_eq_some h
  have hlt := List.snd_lt_of_mem_zipIdx hmem
  cases n <;> simp at hj
  omega

/-! ## Adding one import -/

theorem insertIdx_eq_append {α : Type} (a : α) :
    ∀ (i : Nat) (l : List α), i ≤ l.length → l.insertIdx i a = l.take i ++ a :: l.drop i
  | 0, l, _ => by simp
  | i + 1, [], h => by simp at h
  | i + 1, b :: l, h => by
    have ih := insertIdx_eq_append a i l (by simpa using h)
    simp [ih]

/-- All that adding an import can do: a new entry in a declaration that does not import `"C"`, or a new
declaration. -/
inductive Extends (path : Text) : List Node → List Node → Prop
  | entry (before after : List Node) (m : Mark) (left right : List Node) (grouped : Bool)
      (opened : ¬ ImportsC (left ++ right)) :
      Extends path (before ++ .importDecl m (left ++ right) grouped :: after)
        (before ++ .importDecl m (left ++ newEntry path :: right)
          (grouped || decide (0 < (left ++ right).length)) :: after)
  | decl (before after : List Node) :
      Extends path (before ++ after) (before ++ .importDecl {} [newEntry path] false :: after)

theorem Extends.added {path : Text} {ds es : List Node} (h : Extends path ds es) :
    Added path ds es := by
  cases h with
  | entry before after m left right grouped _ => exact .entry before after m left right grouped
  | decl before after => exact .decl before after

theorem insertEntry_extends (path : Text) {ds : List Node} {d i : Nat} {m : Mark}
    {entries : List Node} {grouped : Bool} (hd : ds[d]? = some (.importDecl m entries grouped))
    (hopen : ¬ ImportsC entries) (hi : i ≤ entries.length) :
    Extends path ds (ds.modify d (insertEntry i (newEntry path))) := by
  obtain ⟨hlt, hget⟩ := List.getElem?_eq_some_iff.mp hd
  have hds : ds = ds.take d ++ .importDecl m (entries.take i ++ entries.drop i) grouped ::
      ds.drop (d + 1) := by
    rw [List.take_append_drop, ← hget, List.getElem_cons_drop, List.take_append_drop]
  have hgrouped : decide (1 < (entries.take i ++ newEntry path :: entries.drop i).length) =
      decide (0 < (entries.take i ++ entries.drop i).length) := by
    simp only [List.length_append, List.length_cons]
    exact decide_eq_decide.mpr (by omega)
  have hmod : ds.modify d (insertEntry i (newEntry path)) = ds.take d ++
      .importDecl m (entries.take i ++ newEntry path :: entries.drop i)
        (grouped || decide (0 < (entries.take i ++ entries.drop i).length)) :: ds.drop (d + 1) := by
    rw [List.modify_eq_take_cons_drop hlt, hget]
    simp only [insertEntry]
    rw [insertIdx_eq_append _ _ _ hi, hgrouped]
  rw [hmod]
  nth_rewrite 1 [hds]
  exact .entry _ _ m _ _ grouped (by rwa [List.take_append_drop])

/-- What adding an import does, wherever the search puts it. -/
theorem add_extends (path : Text) (ds : List Node) : Extends path ds (add path ds) := by
  have hplace := inside_search path 0 ds .nowhere rfl trivial
  unfold add
  split
  · rename_i d i s heq
    rw [heq] at hplace
    obtain ⟨m, entries, grouped, hd, hopen, hi⟩ := hplace
    exact insertEntry_extends path hd hopen hi
  · rename_i d heq
    rw [heq] at hplace
    obtain ⟨m, entries, grouped, hd, hopen⟩ := hplace
    exact insertEntry_extends path hd hopen (Nat.zero_le _)
  · have hinsert : ∀ i ≤ ds.length,
        Extends path ds (ds.insertIdx i (.importDecl {} [newEntry path] false)) := by
      intro i hi
      rw [insertIdx_eq_append _ _ _ hi]
      nth_rewrite 1 [← List.take_append_drop i ds]
      exact .decl _ _
    refine hinsert _ ?_
    split
    · rename_i i hi
      exact lt_of_lastImport? hi
    · cases hp : packageIndex? ds with
      | none => exact Nat.zero_le _
      | some i => exact lt_of_packageIndex? hp

/-- **Adding an import adds its entry and nothing else.** -/
theorem add_added (path : Text) (ds : List Node) : Added path ds (add path ds) :=
  (add_extends path ds).added

end Imports

/-! ## Adding what is missing -/

namespace SourceFile

open Imports

/-- The imports after one was added satisfy what they satisfied before, or the new one does. -/
theorem imports_any_of_added {f g : SourceFile} {path : Text} {ds es : List Node}
    (h : Added path ds es) (hf : f.decls = ds) (hg : g.decls = es) (q : ImportSpec → Bool) :
    g.imports.any q = (q (newSpec path) || f.imports.any q) := by
  unfold imports
  rw [hf, hg]
  cases h with
  | entry before after m left right grouped =>
    simp only [specs, List.flatMap_append, List.flatMap_cons, List.filterMap_append,
      List.filterMap_cons, newEntry, Node.spec?, List.any_append, List.any_cons]
    ac_rfl
  | decl before after =>
    simp only [specs, List.flatMap_append, List.flatMap_cons, List.filterMap_cons,
      List.filterMap_nil, newEntry, Node.spec?, List.any_append, List.any_cons, List.any_nil]
    ac_rfl

/-- After adding an import it is there, and no other has come or gone. -/
theorem hasImport_addImport (f : SourceFile) (path q : Text) :
    (f.addImport path).hasImport q = (path == q || f.hasImport q) := by
  have hnew : (newSpec path).bindsDefaultName = true := rfl
  have hany := imports_any_of_added (add_added path f.decls) rfl (rfl : (f.addImport path).decls = _)
    fun s => s.path == q && s.bindsDefaultName
  rw [hnew, Bool.and_true] at hany
  exact hany

/-- **Ensuring imports adds the missing ones and nothing else.** -/
theorem ensureImports_added (f : SourceFile) (paths : List Text) :
    (f.ensureImports paths).2.mark = f.mark ∧
      (f.ensureImports paths).2.identifiers = f.identifiers ∧
      AddedAll (f.ensureImports paths).1 f.decls (f.ensureImports paths).2.decls := by
  induction paths generalizing f with
  | nil => exact ⟨rfl, rfl, .nil f.decls⟩
  | cons path paths ih =>
    unfold ensureImports
    split
    · exact ih f
    · obtain ⟨hmark, hids, hall⟩ := ih (f.addImport path)
      exact ⟨hmark, hids, .cons (add_added path f.decls) hall⟩

/-- Where nothing is missing, nothing is added. -/
theorem ensureImports_of_hasImport {f : SourceFile} {paths : List Text}
    (h : ∀ path ∈ paths, f.hasImport path = true) : f.ensureImports paths = ([], f) := by
  induction paths with
  | nil => rfl
  | cons path paths ih =>
    rw [ensureImports, if_pos (h path List.mem_cons_self)]
    exact ih fun q hq => h q (List.mem_cons_of_mem path hq)

/-- The paths added are those not imported before, each once. -/
theorem ensureImports_fst (f : SourceFile) (paths : List Text) :
    (f.ensureImports paths).1 = (paths.filter fun p => !f.hasImport p).eraseDups := by
  induction paths generalizing f with
  | nil => rfl
  | cons path paths ih =>
    unfold ensureImports
    split
    · rename_i hhas
      rw [List.filter_cons_of_neg (by simp [hhas])]
      exact ih f
    · rename_i hhas
      have hfilter : (paths.filter fun p => !(f.addImport path).hasImport p) =
          (paths.filter fun p => !f.hasImport p).filter fun p => !p == path := by
        rw [List.filter_filter]
        refine List.filter_congr fun p _ => ?_
        rw [hasImport_addImport, Bool.not_or, Bool.beq_comm]
      rw [List.filter_cons_of_pos (by simpa using hhas), List.eraseDups_cons]
      simp only [ih (f.addImport path), hfilter]

end SourceFile

end Stopwatch
