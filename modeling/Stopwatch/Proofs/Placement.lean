import Mathlib
import Stopwatch.Proofs.Imports

/-!
# Where a new import goes

The search goes once through the declarations and keeps the best place so far. `Imports.Placed path ds es`
says without a search what it comes to: `es` is `ds`, cut at the place of the new entry.

* Where some declaration without `"C"` has a spec, the entry goes behind the first of these specs whose path
  has the most slashes in common with `path` at its front.
* Otherwise it goes to the front of the last declaration that has no spec.
* Otherwise it gets a declaration of its own, behind the last import, the package clause, or nothing.

Results:
* `Text.prefix_commonPrefix_iff`, `Imports.matchLength_eq`: what the search compares.
* `Imports.exists_placed`, `Imports.add_of_placed`: there is such a place in every file, and it is where the
  search puts the entry.
* `SourceFile.eq_addImport_iff`: the two together, for a whole file.
-/

namespace Stopwatch

/-! ## What a match is -/

namespace Text

/-- The longest text that two texts start with. -/
def commonPrefix : Text → Text → Text
  | a :: s, b :: t => if a = b then a :: commonPrefix s t else []
  | _, _ => []

/-- Nothing longer is a prefix of both. -/
theorem prefix_commonPrefix_iff {u s t : Text} : u <+: commonPrefix s t ↔ u <+: s ∧ u <+: t := by
  induction u generalizing s t with
  | nil => simp
  | cons c u ih =>
    cases s with
    | nil => simp [commonPrefix]
    | cons a s =>
      cases t with
      | nil => simp [commonPrefix]
      | cons b t =>
        by_cases hab : a = b
        · simp only [commonPrefix, hab, if_true, List.cons_prefix_cons, ih]
          tauto
        · simp only [commonPrefix, hab, if_false, List.cons_prefix_cons, List.prefix_nil,
            reduceCtorEq, false_iff]
          rintro ⟨⟨rfl, -⟩, rfl, -⟩
          exact hab rfl

/-- The byte between the elements of an import path. -/
def slash : UInt8 := 47

end Text

namespace Imports

/-- The number of slashes in what the paths of two imports have in common at their front. -/
def shared (path other : Text) : Nat := (Text.commonPrefix path other).count Text.slash

/-- **The search compares the slashes in the longest common prefix.** -/
theorem matchLength_eq (s t : Text) : matchLength s t = shared s t := by
  unfold shared
  fun_induction matchLength s t with
  | case1 s b t ih =>
    rw [Text.commonPrefix, if_pos rfl, List.count_cons, ih, Nat.add_comm]
    simp [Text.slash]
  | case2 a s b t hab => rw [Text.commonPrefix, if_neg hab, List.count_nil]
  | case3 s t hnil =>
    cases s with
    | nil => rfl
    | cons a s =>
      cases t with
      | nil => rfl
      | cons b t => exact absurd rfl (hnil a s b t rfl)

/-! ## The places there are -/

instance : DecidablePred ImportsC := fun _ => decidable_of_iff _ importsC_iff.symm

/-- The specs of the declarations that do not import `"C"`, in the order of the file. -/
def openSpecs (ds : List Node) : List ImportSpec :=
  ds.flatMap fun
    | .importDecl _ entries _ => if ImportsC entries then [] else specs entries
    | _ => []

end Imports

/-- An import declaration that has no spec: there is nothing in it, or comments only. -/
def Node.isSpecless : Node → Bool
  | importDecl _ entries _ => (Imports.specs entries).isEmpty
  | _ => false

/-- Whether a node is a package clause. -/
def Node.isPackageClause : Node → Bool
  | packageClause .. => true
  | _ => false

theorem Node.spec?_cases (n : Node) : n.spec? = none ∨ ∃ mark s, n = importSpec mark s := by
  cases n with
  | importSpec mark s => exact .inr ⟨mark, s, rfl⟩
  | _ => exact .inl rfl

theorem Node.isImportDecl_cases (n : Node) :
    n.isImportDecl = false ∨ ∃ m entries grouped, n = importDecl m entries grouped := by
  cases n with
  | importDecl m entries grouped => exact .inr ⟨m, entries, grouped, rfl⟩
  | _ => exact .inl rfl

namespace Imports

/-- `es` is `ds` with an entry for `path` in the place where it belongs. -/
inductive Placed (path : Text) (ds : List Node) : List Node → Prop
  /-- Behind a spec that shares more with the path than those before it, and no less than those after it. -/
  | behindSpec {before after left right : List Node} {m mark : Mark} {s : ImportSpec} {grouped : Bool}
      (split : ds = before ++ .importDecl m (left ++ .importSpec mark s :: right) grouped :: after)
      (opened : ¬ ImportsC (left ++ .importSpec mark s :: right))
      (earlier : ∀ t ∈ openSpecs before ++ specs left, shared t.path path < shared s.path path)
      (later : ∀ t ∈ specs right ++ openSpecs after, shared t.path path ≤ shared s.path path) :
      Placed path ds (before ++
        .importDecl m (left ++ .importSpec mark s :: newEntry path :: right) true :: after)
  /-- First in the last declaration without a spec. -/
  | atFront {before after entries : List Node} {m : Mark} {grouped : Bool}
      (split : ds = before ++ .importDecl m entries grouped :: after) (unmatched : openSpecs ds = [])
      (specless : specs entries = []) (last : ∀ n ∈ after, n.isSpecless = false) :
      Placed path ds
        (before ++ .importDecl m (newEntry path :: entries) (grouped || !entries.isEmpty) :: after)
  /-- Alone, behind the last import. -/
  | behindImports {before after : List Node} {n : Node} (split : ds = before ++ n :: after)
      (unmatched : openSpecs ds = []) (full : ∀ n ∈ ds, n.isSpecless = false)
      (decl : n.isImportDecl = true) (last : ∀ n ∈ after, n.isImportDecl = false) :
      Placed path ds (before ++ n :: .importDecl {} [newEntry path] false :: after)
  /-- Alone, behind the package clause of a file without imports. -/
  | behindPackage {before after : List Node} {n : Node} (split : ds = before ++ n :: after)
      (none : ∀ n ∈ ds, n.isImportDecl = false) (clause : n.isPackageClause = true)
      (first : ∀ n ∈ before, n.isPackageClause = false) :
      Placed path ds (before ++ n :: .importDecl {} [newEntry path] false :: after)
  /-- Alone in front of a file with neither. -/
  | atTop (none : ∀ n ∈ ds, n.isImportDecl = false) (bare : ∀ n ∈ ds, n.isPackageClause = false) :
      Placed path ds (.importDecl {} [newEntry path] false :: ds)

/-! ## Going through the declarations -/

/-- The match that a place goes by, none where it goes by no spec. -/
def Place.score : Place → WithBot ℕ
  | .after _ _ score => score
  | _ => ⊥

variable {path : Text}

theorem searchEntries_append (d i : Nat) (xs ys : List Node) (place : Place) :
    searchEntries path d i (xs ++ ys) place =
      searchEntries path d (i + xs.length) ys (searchEntries path d i xs place) := by
  induction xs generalizing i place with
  | nil => rfl
  | cons x xs ih =>
    rw [List.length_cons, Nat.add_comm xs.length, ← Nat.add_assoc]
    cases x <;> exact ih ..

theorem search_append (d : Nat) (xs ys : List Node) (place : Place) :
    search path d (xs ++ ys) place = search path (d + xs.length) ys (search path d xs place) := by
  induction xs generalizing d place with
  | nil => rfl
  | cons x xs ih =>
    rw [List.length_cons, Nat.add_comm xs.length, ← Nat.add_assoc]
    cases x <;> exact ih ..

/-- A spec takes the place over if it matches better than what the place goes by. -/
theorem searchEntries_spec (d i : Nat) (mark : Mark) (s : ImportSpec) (rest : List Node) (place : Place) :
    searchEntries path d i (.importSpec mark s :: rest) place =
      searchEntries path d (i + 1) rest
        (if place.score < shared s.path path then .after d i (shared s.path path) else place) := by
  cases place <;> simp [searchEntries, matchLength_eq, Place.score]

theorem searchEntries_other {n : Node} (hn : n.spec? = none) (d i : Nat) (rest : List Node) (place : Place) :
    searchEntries path d i (n :: rest) place = searchEntries path d (i + 1) rest place := by
  cases n with
  | importSpec => cases hn
  | _ => rfl

theorem specs_cons_spec (mark : Mark) (s : ImportSpec) (rest : List Node) :
    specs (.importSpec mark s :: rest) = s :: specs rest := rfl

theorem specs_cons_other {n : Node} (hn : n.spec? = none) (rest : List Node) :
    specs (n :: rest) = specs rest := List.filterMap_cons_none hn

theorem specs_append (xs ys : List Node) : specs (xs ++ ys) = specs xs ++ specs ys :=
  List.filterMap_append

/-- Specs that match no better change nothing. -/
theorem searchEntries_of_le {place : Place} (d i : Nat) {rest : List Node}
    (h : ∀ t ∈ specs rest, (shared t.path path : WithBot ℕ) ≤ place.score) :
    searchEntries path d i rest place = place := by
  induction rest generalizing i with
  | nil => rfl
  | cons n rest ih =>
    obtain hn | ⟨mark, s, rfl⟩ := n.spec?_cases
    · rw [specs_cons_other hn] at h
      rw [searchEntries_other hn, ih _ h]
    · rw [specs_cons_spec, List.forall_mem_cons] at h
      rw [searchEntries_spec, if_neg (not_lt.mpr h.1), ih _ h.2]

/-- A bound on what matches bounds what is found. -/
theorem score_searchEntries_lt {place : Place} {b : ℕ} (d i : Nat) {rest : List Node}
    (hplace : place.score < b) (h : ∀ t ∈ specs rest, shared t.path path < b) :
    (searchEntries path d i rest place).score < b := by
  induction rest generalizing i place with
  | nil => exact hplace
  | cons n rest ih =>
    obtain hn | ⟨mark, s, rfl⟩ := n.spec?_cases
    · rw [specs_cons_other hn] at h
      rw [searchEntries_other hn]
      exact ih _ hplace h
    · rw [specs_cons_spec, List.forall_mem_cons] at h
      rw [searchEntries_spec]
      refine ih _ ?_ h.2
      split
      · exact WithBot.coe_lt_coe.mpr h.1
      · exact hplace

/-! ## One declaration after the other -/

theorem searchDecl_of_importsC {entries : List Node} (h : ImportsC entries) (d : Nat) (place : Place) :
    searchDecl path d entries place = place := by
  unfold searchDecl
  rw [if_pos (importsC_iff.mp h)]

theorem not_importsC_of_specless {entries : List Node} (h : specs entries = []) : ¬ ImportsC entries := by
  simp [ImportsC, h]

/-- A declaration without a spec is kept in mind as long as no spec was found. -/
theorem searchDecl_of_specless {entries : List Node} (h : specs entries = []) (d : Nat) (place : Place) :
    searchDecl path d entries place = if place.score = ⊥ then .first d else place := by
  have hkeep : ∀ place : Place, searchEntries path d 0 entries place = place := fun place =>
    searchEntries_of_le d 0 (by simp [h])
  unfold searchDecl
  rw [if_neg (mt importsC_iff.mpr (not_importsC_of_specless h))]
  cases place <;> simp [h, Place.score, hkeep]

theorem searchDecl_of_open {entries : List Node} (hopen : ¬ ImportsC entries) (hspecs : specs entries ≠ [])
    (d : Nat) (place : Place) : searchDecl path d entries place = searchEntries path d 0 entries place := by
  have hfalse : (specs entries).isEmpty = false := by simpa using hspecs
  unfold searchDecl
  rw [if_neg (mt importsC_iff.mpr hopen)]
  simp only [hfalse]

theorem search_cons_decl (d : Nat) (m : Mark) (entries : List Node) (grouped : Bool) (ds : List Node)
    (place : Place) : search path d (.importDecl m entries grouped :: ds) place =
      search path (d + 1) ds (searchDecl path d entries place) := rfl

theorem search_cons_other {n : Node} (hn : n.isImportDecl = false) (d : Nat) (ds : List Node)
    (place : Place) : search path d (n :: ds) place = search path (d + 1) ds place := by
  cases n with
  | importDecl => cases hn
  | _ => rfl

theorem openSpecs_cons_decl (m : Mark) (entries : List Node) (grouped : Bool) (ds : List Node) :
    openSpecs (.importDecl m entries grouped :: ds) =
      (if ImportsC entries then [] else specs entries) ++ openSpecs ds := rfl

theorem openSpecs_cons_other {n : Node} (hn : n.isImportDecl = false) (ds : List Node) :
    openSpecs (n :: ds) = openSpecs ds := by
  cases n with
  | importDecl => cases hn
  | _ => rfl

theorem openSpecs_append (xs ys : List Node) : openSpecs (xs ++ ys) = openSpecs xs ++ openSpecs ys :=
  List.flatMap_append

/-- Once a spec was found, specs that match no better change nothing. -/
theorem search_of_le (d i best k : Nat) {ds : List Node}
    (h : ∀ t ∈ openSpecs ds, shared t.path path ≤ best) :
    search path k ds (.after d i best) = .after d i best := by
  induction ds generalizing k with
  | nil => rfl
  | cons n ds ih =>
    obtain hn | ⟨m, entries, grouped, rfl⟩ := n.isImportDecl_cases
    · rw [openSpecs_cons_other hn] at h
      rw [search_cons_other hn, ih _ h]
    · rw [openSpecs_cons_decl, List.forall_mem_append] at h
      rw [search_cons_decl]
      suffices hdecl : searchDecl path k entries (.after d i best) = .after d i best by
        rw [hdecl, ih _ h.2]
      by_cases hC : ImportsC entries
      · rw [searchDecl_of_importsC hC]
      · rw [if_neg hC] at h
        by_cases hspecs : specs entries = []
        · simp [searchDecl_of_specless hspecs, Place.score]
        · rw [searchDecl_of_open hC hspecs, searchEntries_of_le]
          exact fun t ht => WithBot.coe_le_coe.mpr (h.1 t ht)

/-- A bound on what matches bounds what is found. -/
theorem score_search_lt {place : Place} {b : ℕ} (k : Nat) {ds : List Node} (hplace : place.score < b)
    (h : ∀ t ∈ openSpecs ds, shared t.path path < b) : (search path k ds place).score < b := by
  induction ds generalizing k place with
  | nil => exact hplace
  | cons n ds ih =>
    obtain hn | ⟨m, entries, grouped, rfl⟩ := n.isImportDecl_cases
    · rw [openSpecs_cons_other hn] at h
      rw [search_cons_other hn]
      exact ih _ hplace h
    · rw [openSpecs_cons_decl, List.forall_mem_append] at h
      rw [search_cons_decl]
      refine ih _ ?_ h.2
      by_cases hC : ImportsC entries
      · rwa [searchDecl_of_importsC hC]
      · rw [if_neg hC] at h
        by_cases hspecs : specs entries = []
        · rw [searchDecl_of_specless hspecs]
          split
          · exact WithBot.bot_lt_coe b
          · exact hplace
        · rw [searchDecl_of_open hC hspecs]
          exact score_searchEntries_lt k 0 hplace h.1

/-- Without a spec to go behind, none is found. -/
theorem score_search_of_unmatched (k : Nat) {ds : List Node} (h : openSpecs ds = []) :
    (search path k ds .nowhere).score = ⊥ := by
  have hlt : (search path k ds .nowhere).score < (0 : ℕ) :=
    score_search_lt k (WithBot.bot_lt_coe 0) (by simp [h])
  exact WithBot.lt_coe_bot.mp hlt

/-- Where all declarations import `"C"`, the search leaves the place as it is. -/
theorem search_of_full (k : Nat) {ds : List Node} (h : openSpecs ds = [])
    (hfull : ∀ n ∈ ds, n.isSpecless = false) (place : Place) : search path k ds place = place := by
  induction ds generalizing k with
  | nil => rfl
  | cons n ds ih =>
    rw [List.forall_mem_cons] at hfull
    obtain hn | ⟨m, entries, grouped, rfl⟩ := n.isImportDecl_cases
    · rw [openSpecs_cons_other hn] at h
      rw [search_cons_other hn, ih _ h hfull.2]
    · rw [openSpecs_cons_decl, List.append_eq_nil_iff] at h
      have hC : ImportsC entries := by
        by_contra hopen
        rw [if_neg hopen] at h
        simp [Node.isSpecless, h.1] at hfull
      rw [search_cons_decl, searchDecl_of_importsC hC, ih _ h.2 hfull.2]

/-! ## The place that is found -/

/-- The place behind the closest spec. -/
theorem search_eq_after {before after left right : List Node} {m mark : Mark} {s : ImportSpec}
    {grouped : Bool} (hopen : ¬ ImportsC (left ++ .importSpec mark s :: right))
    (earlier : ∀ t ∈ openSpecs before ++ specs left, shared t.path path < shared s.path path)
    (later : ∀ t ∈ specs right ++ openSpecs after, shared t.path path ≤ shared s.path path) :
    search path 0 (before ++ .importDecl m (left ++ .importSpec mark s :: right) grouped :: after) .nowhere =
      .after before.length left.length (shared s.path path) := by
  rw [List.forall_mem_append] at earlier later
  have hbefore : (search path 0 before .nowhere).score < shared s.path path :=
    score_search_lt 0 (WithBot.bot_lt_coe _) earlier.1
  have hspecs : specs (left ++ .importSpec mark s :: right) ≠ [] := by
    simp [specs_append, specs_cons_spec]
  rw [search_append, search_cons_decl, searchDecl_of_open hopen hspecs, searchEntries_append,
    searchEntries_spec, if_pos (score_searchEntries_lt _ 0 hbefore earlier.2)]
  rw [searchEntries_of_le _ _ fun t ht => WithBot.coe_le_coe.mpr (later.1 t ht), Nat.zero_add, Nat.zero_add]
  exact search_of_le _ _ _ _ later.2

/-- The place at the front of the last declaration without a spec. -/
theorem search_eq_first {before after entries : List Node} {m : Mark} {grouped : Bool}
    (unmatched : openSpecs (before ++ .importDecl m entries grouped :: after) = [])
    (specless : specs entries = []) (last : ∀ n ∈ after, n.isSpecless = false) :
    search path 0 (before ++ .importDecl m entries grouped :: after) .nowhere = .first before.length := by
  rw [openSpecs_append, openSpecs_cons_decl, List.append_eq_nil_iff, List.append_eq_nil_iff] at unmatched
  obtain ⟨hbefore, -, hafter⟩ := unmatched
  rw [search_append, search_cons_decl, searchDecl_of_specless specless,
    if_pos (score_search_of_unmatched 0 hbefore), search_of_full _ hafter last, Nat.zero_add]

/-! ## The declarations with the new entry -/

theorem modify_append_cons {α : Type} (f : α → α) (before : List α) (a : α) (after : List α) :
    (before ++ a :: after).modify before.length f = before ++ f a :: after := by
  induction before with
  | nil => rfl
  | cons b before ih => simp [ih]

theorem insertIdx_append_cons {α : Type} (x : α) (before : List α) (a : α) (after : List α) :
    (before ++ a :: after).insertIdx (before.length + 1) x = before ++ a :: x :: after := by
  induction before with
  | nil => rfl
  | cons b before ih => simp [ih]

theorem lastImport?_eq_findSome? (ds : List Node) :
    lastImport? ds = ds.zipIdx.reverse.findSome? fun p => if p.1.isImportDecl then some p.2 else none := by
  unfold lastImport?
  congr 1
  funext p
  obtain ⟨n, i⟩ := p
  cases n <;> rfl

theorem packageIndex?_eq_findSome? (ds : List Node) :
    packageIndex? ds = ds.zipIdx.findSome? fun p => if p.1.isPackageClause then some p.2 else none := by
  unfold packageIndex?
  congr 1
  funext p
  obtain ⟨n, i⟩ := p
  cases n <;> rfl

/-- Where no node is of a kind, none is found in any order. -/
theorem findSome?_kind_eq_none {kind : Node → Bool} {ds : List Node} {ps : List (Node × Nat)}
    (h : ∀ n ∈ ds, kind n = false) (hps : ∀ p ∈ ps, p.1 ∈ ds) :
    (ps.findSome? fun p => if kind p.1 then some p.2 else none) = none :=
  List.findSome?_eq_none_iff.mpr fun p hp => by simp [h p.1 (hps p hp)]

theorem lastImport?_eq_none {ds : List Node} (h : ∀ n ∈ ds, n.isImportDecl = false) :
    lastImport? ds = none := by
  rw [lastImport?_eq_findSome?]
  exact findSome?_kind_eq_none h fun p hp => List.fst_mem_of_mem_zipIdx (List.mem_reverse.mp hp)

theorem lastImport?_eq {before after : List Node} {n : Node} (hn : n.isImportDecl = true)
    (last : ∀ n ∈ after, n.isImportDecl = false) :
    lastImport? (before ++ n :: after) = some before.length := by
  rw [lastImport?_eq_findSome?, List.zipIdx_append, List.zipIdx_cons, List.reverse_append,
    List.reverse_cons, List.findSome?_append, List.findSome?_append,
    findSome?_kind_eq_none last fun p hp => List.fst_mem_of_mem_zipIdx (List.mem_reverse.mp hp)]
  simp [hn]

theorem packageIndex?_eq_none {ds : List Node} (h : ∀ n ∈ ds, n.isPackageClause = false) :
    packageIndex? ds = none := by
  rw [packageIndex?_eq_findSome?]
  exact findSome?_kind_eq_none h fun p hp => List.fst_mem_of_mem_zipIdx hp

theorem packageIndex?_eq {before after : List Node} {n : Node} (hn : n.isPackageClause = true)
    (first : ∀ n ∈ before, n.isPackageClause = false) :
    packageIndex? (before ++ n :: after) = some before.length := by
  rw [packageIndex?_eq_findSome?, List.zipIdx_append, List.zipIdx_cons, List.findSome?_append,
    findSome?_kind_eq_none first fun p hp => List.fst_mem_of_mem_zipIdx hp]
  simp [hn]

theorem openSpecs_of_no_import {ds : List Node} (h : ∀ n ∈ ds, n.isImportDecl = false) :
    openSpecs ds = [] := by
  refine List.flatMap_eq_nil_iff.mpr fun n hn => ?_
  have hother := h n hn
  cases n with
  | importDecl => cases hother
  | _ => rfl

theorem isSpecless_of_no_import {n : Node} (h : n.isImportDecl = false) : n.isSpecless = false := by
  cases n with
  | importDecl => cases h
  | _ => rfl

/-- **The search finds the place where the entry belongs.** -/
theorem add_of_placed {ds es : List Node} (h : Placed path ds es) : add path ds = es := by
  unfold add
  cases h with
  | @behindSpec before after left right m mark s grouped split opened earlier later =>
    rw [split, search_eq_after opened earlier later]
    have hseveral : 1 < (left ++ .importSpec mark s :: newEntry path :: right).length := by
      simp only [List.length_append, List.length_cons]
      omega
    simp only [modify_append_cons, insertEntry, insertIdx_append_cons]
    change before ++ Node.importDecl m _ (grouped || decide (1 < (left ++ .importSpec mark s ::
      newEntry path :: right).length)) :: after = _
    rw [decide_eq_true hseveral, Bool.or_true]
    rfl
  | @atFront before after entries m grouped split unmatched specless last =>
    rw [split] at unmatched
    rw [split, search_eq_first unmatched specless last]
    simp only [modify_append_cons, insertEntry, List.insertIdx_zero]
    cases entries <;> simp [newEntry]
  | behindImports split unmatched full decl last =>
    rw [search_of_full 0 unmatched full, split]
    simp only [lastImport?_eq decl last, insertIdx_append_cons]
    rfl
  | behindPackage split none clause first =>
    rw [search_of_full 0 (openSpecs_of_no_import none) fun n hn => isSpecless_of_no_import (none n hn)]
    simp only [lastImport?_eq_none none]
    rw [split]
    simp only [packageIndex?_eq clause first, Option.map_some, Option.getD_some, insertIdx_append_cons]
    rfl
  | atTop none bare =>
    rw [search_of_full 0 (openSpecs_of_no_import none) fun n hn => isSpecless_of_no_import (none n hn)]
    simp only [lastImport?_eq_none none, packageIndex?_eq_none bare]
    rfl

/-! ## There is always a place -/

/-- A list that is not empty has a first element of greatest score. -/
theorem exists_first_max {α : Type} (score : α → ℕ) {l : List α} (h : l ≠ []) :
    ∃ left a right, l = left ++ a :: right ∧ (∀ b ∈ left, score b < score a) ∧
      ∀ b ∈ right, score b ≤ score a := by
  induction l with
  | nil => exact absurd rfl h
  | cons a l ih =>
    by_cases hall : ∀ b ∈ l, score b ≤ score a
    · exact ⟨[], a, l, rfl, by simp, hall⟩
    · push Not at hall
      obtain ⟨b, hb, hlt⟩ := hall
      obtain ⟨left, c, right, rfl, hleft, hright⟩ := ih (List.ne_nil_of_mem hb)
      have hac : score a < score c := by
        rcases List.mem_append.mp hb with hb | hb
        · exact hlt.trans (hleft b hb)
        · rcases List.mem_cons.mp hb with rfl | hb
          · exact hlt
          · exact hlt.trans_le (hright b hb)
      exact ⟨a :: left, c, right, rfl, List.forall_mem_cons.mpr ⟨hac, hleft⟩, hright⟩

/-- A list with an element of a kind has a last one. -/
theorem exists_last {α : Type} (p : α → Bool) {l : List α} (h : ∃ a ∈ l, p a = true) :
    ∃ left a right, l = left ++ a :: right ∧ p a = true ∧ ∀ b ∈ right, p b = false := by
  induction l with
  | nil => simp at h
  | cons a l ih =>
    by_cases hlater : ∃ b ∈ l, p b = true
    · obtain ⟨left, b, right, rfl, hb, hright⟩ := ih hlater
      exact ⟨a :: left, b, right, rfl, hb, hright⟩
    · have hnone : ∀ b ∈ l, p b = false := fun b hb =>
        Bool.eq_false_iff.mpr fun hpb => hlater ⟨b, hb, hpb⟩
      obtain ⟨b, hb, hpb⟩ := h
      rcases List.mem_cons.mp hb with rfl | hb
      · exact ⟨[], b, l, rfl, hpb, hnone⟩
      · exact absurd hpb (by simp [hnone b hb])

/-- Where the open specs are cut, the declarations are. -/
theorem exists_split_of_openSpecs {ds : List Node} {pre post : List ImportSpec} {s : ImportSpec}
    (h : openSpecs ds = pre ++ s :: post) :
    ∃ before m left mark right grouped after,
      ds = before ++ .importDecl m (left ++ .importSpec mark s :: right) grouped :: after ∧
      ¬ ImportsC (left ++ .importSpec mark s :: right) ∧ pre = openSpecs before ++ specs left ∧
      post = specs right ++ openSpecs after := by
  induction ds generalizing pre with
  | nil => simp [openSpecs] at h
  | cons n ds ih =>
    obtain hn | ⟨m, entries, grouped, rfl⟩ := n.isImportDecl_cases
    · rw [openSpecs_cons_other hn] at h
      obtain ⟨before, m, left, mark, right, grouped, after, rfl, hopen, rfl, rfl⟩ := ih h
      exact ⟨n :: before, m, left, mark, right, grouped, after, rfl, hopen,
        by rw [openSpecs_cons_other hn], rfl⟩
    · rw [openSpecs_cons_decl] at h
      rcases List.append_eq_append_iff.mp h with ⟨more, rfl, hmore⟩ | ⟨more, hmore, hrest⟩
      · obtain ⟨before, m', left, mark, right, grouped', after, rfl, hopen, rfl, rfl⟩ := ih hmore
        exact ⟨.importDecl m entries grouped :: before, m', left, mark, right, grouped', after, rfl,
          hopen, by rw [openSpecs_cons_decl, List.append_assoc], rfl⟩
      · rcases List.cons_eq_append_iff.mp hrest with ⟨rfl, hds⟩ | ⟨more, rfl, rfl⟩
        · rw [List.append_nil] at hmore
          obtain ⟨before, m', left, mark, right, grouped', after, rfl, hopen, hpre, rfl⟩ :=
            ih (show openSpecs ds = [] ++ s :: post from hds)
          refine ⟨.importDecl m entries grouped :: before, m', left, mark, right, grouped', after, rfl,
            hopen, ?_, rfl⟩
          rw [openSpecs_cons_decl, List.append_assoc, ← hpre, List.append_nil, hmore]
        · by_cases hC : ImportsC entries
          · simp [hC] at hmore
          · rw [if_neg hC] at hmore
            obtain ⟨left, rest, rfl, rfl, hrest⟩ := List.filterMap_eq_append_iff.mp hmore
            obtain ⟨skipped, a, right, rfl, hskipped, ha, rfl⟩ := List.filterMap_eq_cons_iff.mp hrest
            obtain ⟨mark, rfl⟩ : ∃ mark, a = .importSpec mark s := by
              obtain hnone | ⟨mark, t, rfl⟩ := a.spec?_cases
              · rw [hnone] at ha
                cases ha
              · obtain rfl := Option.some.inj ha
                exact ⟨mark, rfl⟩
            have hnone : specs skipped = [] := List.filterMap_eq_nil_iff.mpr hskipped
            refine ⟨[], m, left ++ skipped, mark, right, grouped, ds, by simp, by simpa using hC, ?_, rfl⟩
            rw [specs_append, hnone, List.append_nil]
            rfl

/-- **Every file has a place for the entry.** -/
theorem exists_placed (path : Text) (ds : List Node) : ∃ es, Placed path ds es := by
  by_cases hopen : openSpecs ds = []
  · by_cases hspecless : ∃ n ∈ ds, n.isSpecless = true
    · obtain ⟨before, n, after, split, hn, last⟩ := exists_last Node.isSpecless hspecless
      cases n with
      | importDecl m entries grouped =>
        exact ⟨_, .atFront split hopen (List.isEmpty_iff.mp hn) last⟩
      | _ => cases hn
    · by_cases himport : ∃ n ∈ ds, n.isImportDecl = true
      · obtain ⟨before, n, after, split, hn, last⟩ := exists_last Node.isImportDecl himport
        exact ⟨_, .behindImports split hopen
          (fun n hn => Bool.eq_false_iff.mpr fun h => hspecless ⟨n, hn, h⟩) hn last⟩
      · have hnone : ∀ n ∈ ds, n.isImportDecl = false := fun n hn =>
          Bool.eq_false_iff.mpr fun h => himport ⟨n, hn, h⟩
        cases hclause : ds.find? Node.isPackageClause with
        | none => exact ⟨_, .atTop hnone fun n hn => by simpa using List.find?_eq_none.mp hclause n hn⟩
        | some n =>
          obtain ⟨hn, before, after, split, first⟩ := List.find?_eq_some_iff_append.mp hclause
          exact ⟨_, .behindPackage split hnone hn fun n hn => by simpa using first n hn⟩
  · obtain ⟨pre, s, post, hsplit, hpre, hpost⟩ :=
      exists_first_max (fun t : ImportSpec => shared t.path path) hopen
    obtain ⟨before, m, left, mark, right, grouped, after, split, hC, rfl, rfl⟩ :=
      exists_split_of_openSpecs hsplit
    exact ⟨_, .behindSpec split hC hpre hpost⟩

/-- Adding an import puts its entry where it belongs. -/
theorem add_placed (path : Text) (ds : List Node) : Placed path ds (add path ds) := by
  obtain ⟨es, h⟩ := exists_placed path ds
  rwa [add_of_placed h]

end Imports

namespace SourceFile

/-- **A file with an import added is that file with the entry where it belongs**, and nothing else. -/
theorem eq_addImport_iff {f g : SourceFile} {path : Text} :
    g = f.addImport path ↔
      g.mark = f.mark ∧ g.identifiers = f.identifiers ∧ Imports.Placed path f.decls g.decls := by
  constructor
  · rintro rfl
    exact ⟨rfl, rfl, Imports.add_placed path f.decls⟩
  · rintro ⟨hmark, hids, hplaced⟩
    cases g
    simp only at hmark hids hplaced
    rw [addImport, Imports.add_of_placed hplaced, hmark, hids]

end SourceFile

end Stopwatch
