import Mathlib
import Stopwatch.Proofs.Items

/-!
# The first error of a tree

The search for the first error passes over every node that announces none. Since an error is announced all
the way up to the root, nothing that it passes over is one, and it finds what a look at every node would find.

* `Cst.firstErrorOf?_cons`: the search as a list of nodes still to be looked at, the next one first.
* `Cst.firstErrorOf?_eq_find?`: it finds the first error in the order of all nodes.
* `SourceFile.ofCst_refuses`: which trees are refused, and at which line and column.
-/

namespace Stopwatch

namespace Cst

variable {c : Cst} {cs : List Cst}

/-! ## Announced errors -/

theorem anyError_eq_any (cs : List Cst) : anyError cs = cs.any hasError := by
  induction cs with
  | nil => rfl
  | cons c cs ih => rw [anyError, List.any_cons, ih]

theorem hasError_eq (c : Cst) : c.hasError =
    (c.info.flagged || c.info.kind == "ERROR" || c.info.missing || c.children.any hasError) := by
  obtain ⟨i, cs⟩ := c
  rw [← anyError_eq_any]
  rfl

/-- A node has an error if it announces one, is one, or one of its children has one. -/
theorem hasError_iff :
    c.hasError = true ↔ c.info.flagged = true ∨ c.isError = true ∨ ∃ d ∈ c.children, d.hasError = true := by
  rw [hasError_eq]
  simp only [isError, kind, Bool.or_eq_true, List.any_eq_true, or_assoc]

theorem hasError_of_isError (h : c.isError = true) : c.hasError = true := hasError_iff.mpr (.inr (.inl h))

/-! ## All nodes -/

mutual

/-- A node and all nodes below it, each before those below it. -/
def preorder : Cst → List Cst
  | c@(node _ cs) => c :: preorderAll cs
termination_by structural c => c

/-- Neighbouring nodes and all nodes below them. -/
def preorderAll : List Cst → List Cst
  | [] => []
  | c :: cs => preorder c ++ preorderAll cs
termination_by structural cs => cs

end

theorem preorder_eq (c : Cst) : c.preorder = c :: preorderAll c.children := by
  obtain ⟨i, cs⟩ := c
  rfl

theorem preorderAll_append (cs ds : List Cst) : preorderAll (cs ++ ds) = preorderAll cs ++ preorderAll ds := by
  induction cs with
  | nil => rfl
  | cons c cs ih => rw [List.cons_append, preorderAll, preorderAll, ih, List.append_assoc]

mutual

/-- Where no error is announced there is none. -/
theorem find?_preorder_of_sound : ∀ c : Cst, c.hasError = false → c.preorder.find? isError = none
  | .node i cs, h => by
    have hself : isError (.node i cs) = false := by
      rw [← Bool.not_eq_true] at h ⊢
      exact fun herror => h (hasError_of_isError herror)
    have hbelow : anyError cs = false := (Bool.or_eq_false_iff.mp h).2
    rw [preorder, List.find?_cons_of_neg (by rw [hself]; simp)]
    exact find?_preorderAll_of_sound cs hbelow

theorem find?_preorderAll_of_sound : ∀ cs : List Cst, anyError cs = false →
    (preorderAll cs).find? isError = none
  | [], _ => rfl
  | c :: cs, h => by
    obtain ⟨hc, hcs⟩ := Bool.or_eq_false_iff.mp h
    rw [preorderAll, List.find?_append, find?_preorder_of_sound c hc, find?_preorderAll_of_sound cs hcs]
    rfl

end

/-- Flags are complete below a node if whatever is an error, or is above a flagged node, is flagged. -/
def FlagsComplete (root : Cst) : Prop :=
  ∀ c ∈ root.preorder, (c.isError = true ∨ ∃ d ∈ c.children, d.info.flagged = true) → c.info.flagged = true

theorem mem_preorderAll {d : Cst} (hd : d ∈ cs) : ∀ c ∈ d.preorder, c ∈ preorderAll cs := by
  intro c hc
  obtain ⟨front, back, rfl⟩ := List.append_of_mem hd
  rw [preorderAll_append, preorderAll]
  exact List.mem_append_right _ (List.mem_append_left _ hc)

theorem FlagsComplete.child {root d : Cst} (h : root.FlagsComplete) (hd : d ∈ root.children) :
    d.FlagsComplete := by
  intro c hc
  refine h c ?_
  rw [preorder_eq]
  exact List.mem_cons_of_mem _ (mem_preorderAll hd c hc)

mutual

/-- Where flags are complete, nothing but them announces errors. -/
theorem FlagsComplete.hasError_eq : ∀ c : Cst, c.FlagsComplete → c.hasError = c.info.flagged
  | .node i cs, h => by
    have hself := h _ (by rw [preorder]; exact List.mem_cons_self)
    have hbelow := anyError_eq_of_complete cs fun d hd => h.child hd
    rw [Bool.eq_iff_iff, hasError_iff]
    refine ⟨?_, .inl⟩
    rintro (hflag | herror | ⟨d, hd, herror⟩)
    · exact hflag
    · exact hself (.inl herror)
    · rw [anyError_eq_any] at hbelow
      obtain ⟨e, he, hflag⟩ := List.any_eq_true.mp (hbelow ▸ List.any_eq_true.mpr ⟨d, hd, herror⟩)
      exact hself (.inr ⟨e, he, hflag⟩)

theorem anyError_eq_of_complete : ∀ cs : List Cst, (∀ d ∈ cs, d.FlagsComplete) →
    anyError cs = cs.any fun d => d.info.flagged
  | [], _ => rfl
  | c :: cs, h => by
    rw [anyError, List.any_cons, FlagsComplete.hasError_eq c (h c List.mem_cons_self),
      anyError_eq_of_complete cs fun d hd => h d (List.mem_cons_of_mem c hd)]

end

/-! ## The search -/

theorem firstErrorOf?_append (cs ds : List Cst) :
    firstErrorOf? (cs ++ ds) = (firstErrorOf? cs).or (firstErrorOf? ds) := by
  induction cs with
  | nil => rfl
  | cons c cs ih => rw [List.cons_append, firstErrorOf?, firstErrorOf?, ih, Option.or_assoc]

/-- **One step of the search**: the next node is the error, or its children are looked at before what is
left, if it announces an error among them. -/
theorem firstErrorOf?_cons (c : Cst) (cs : List Cst) :
    firstErrorOf? (c :: cs) =
      if c.isError then some c
      else if c.hasError then firstErrorOf? (c.children ++ cs)
      else firstErrorOf? cs := by
  obtain ⟨i, ds⟩ := c
  rw [firstErrorOf?, firstError?]
  split_ifs
  · rfl
  · exact (firstErrorOf?_append ds cs).symm
  · rfl

mutual

/-- **The search finds the first error of a tree**, by induction on the tree. -/
theorem firstError?_eq_find? : ∀ c : Cst, c.firstError? = c.preorder.find? isError
  | .node i cs => by
    rw [firstError?, preorder]
    split_ifs with herror hannounced
    · rw [List.find?_cons_of_pos herror]
    · rw [List.find?_cons_of_neg herror]
      exact firstErrorOf?_eq_find? cs
    · rw [List.find?_cons_of_neg herror]
      have hsound := find?_preorder_of_sound _ (Bool.not_eq_true _ ▸ hannounced)
      rw [preorder, List.find?_cons_of_neg herror] at hsound
      exact hsound.symm

theorem firstErrorOf?_eq_find? : ∀ cs : List Cst, firstErrorOf? cs = (preorderAll cs).find? isError
  | [] => rfl
  | c :: cs => by
    rw [firstErrorOf?, preorderAll, List.find?_append, firstError?_eq_find? c, firstErrorOf?_eq_find? cs]

end

/-- The node that a tree is refused for: its first error, or the root if there is none. -/
def culprit (root : Cst) : Cst := (root.preorder.find? isError).getD root

end Cst

/-! ## Refused trees -/

namespace SourceFile

/-- The line of a byte, from one. -/
def lineAt (text : Text) (offset : Nat) : Nat := (text.take offset).count Text.newline + 1

/-- The column of a byte, from one. -/
def columnAt (text : Text) (offset : Nat) : Nat :=
  ((text.take offset).reverse.takeWhile (· != Text.newline)).length + 1

/-- What is said of a node that was missed, or that fits nowhere. -/
def complaint (text : Text) (bad : Cst) : LoadError :=
  if bad.info.missing then .missing bad.kind (lineAt text bad.start) (columnAt text bad.start)
  else .unexpected (lineAt text bad.start) (columnAt text bad.start)

theorem position?_complaint (text : Text) (bad : Cst) :
    (complaint text bad).position? = some (lineAt text bad.start, columnAt text bad.start) := by
  unfold complaint
  split <;> rfl

/-- A tree that announces an error is refused for its culprit. -/
theorem ofCst_of_hasError {text : Text} {root : Cst} (h : root.hasError = true) :
    ofCst text root = .error (complaint text root.culprit) := by
  simp only [ofCst, h, if_true, errorOf, Cst.firstError?_eq_find?, Source.point_ofText, Text.point_row,
    Text.point_col]
  rfl

/-- A tree that announces no error and has no package clause is refused for that. -/
theorem ofCst_of_noPackage {text : Text} {root : Cst} (h : root.hasError = false)
    (hpackage : ∀ c ∈ root.namedChildren, c.kind ≠ "package_clause") : ofCst text root = .error .noPackage := by
  have hany : (build (Source.ofText text) root).decls.any Load.isPackageClause = false := by
    rw [Load.decls_build, List.any_map, List.any_eq_false]
    intro b hb
    obtain ⟨c, hc, hitem⟩ := List.mem_map.mp (Load.mem_of_mem_sortedBlocks _ hb)
    rw [Function.comp_apply, Load.isPackageClause_blockNode, ← hitem, beq_iff_eq]
    exact hpackage c hc
  simp [ofCst, h, hany]

/-- What a tree is refused for: for its culprit if the root announces an error, and otherwise for the package
clause that it lacks. -/
inductive Refused (text : Text) (root : Cst) : LoadError → Prop
  | error (h : root.hasError = true) : Refused text root (complaint text root.culprit)
  | noPackage (h : root.hasError = false) (hpackage : ∀ c ∈ root.namedChildren, c.kind ≠ "package_clause") :
      Refused text root .noPackage

theorem ofCst_error_iff {text : Text} {root : Cst} {e : LoadError} :
    ofCst text root = .error e ↔ Refused text root e := by
  constructor
  · intro he
    cases herror : root.hasError with
    | true =>
      obtain rfl := Except.error.inj ((ofCst_of_hasError herror).symm.trans he)
      exact .error herror
    | false =>
      by_cases hclause : ∃ c ∈ root.namedChildren, c.kind = "package_clause"
      · rw [Load.ofCst_eq_ok herror hclause] at he
        cases he
      · push Not at hclause
        obtain rfl := Except.error.inj ((ofCst_of_noPackage herror hclause).symm.trans he)
        exact .noPackage herror hclause
  · rintro (herror | ⟨herror, hclause⟩)
    · exact ofCst_of_hasError herror
    · exact ofCst_of_noPackage herror hclause

/-- **Which trees are refused, and where the fault is said to be.** The search for the first error finds the
first among all nodes, whatever is announced without cause. A tree is refused if its root announces an error,
and then at that first error, or at the root if there is none; or if it has no package clause. Where flags are
complete, what a root announces is its flag. -/
theorem ofCst_refuses (text : Text) (root : Cst) :
    root.firstError? = root.preorder.find? Cst.isError ∧
    (root.firstError? = none ↔ ∀ c ∈ root.preorder, c.isError = false) ∧
    (root.FlagsComplete → root.hasError = root.info.flagged) ∧
    ((∃ e, ofCst text root = .error e) ↔
      root.hasError = true ∨ ∀ c ∈ root.namedChildren, c.kind ≠ "package_clause") ∧
    (∀ e, ofCst text root = .error e ↔ Refused text root e) ∧
    (complaint text root.culprit).position? =
      some (lineAt text root.culprit.start, columnAt text root.culprit.start) := by
  refine ⟨Cst.firstError?_eq_find? root, ?_, Cst.FlagsComplete.hasError_eq root, ⟨?_, ?_⟩,
    fun e => ofCst_error_iff, position?_complaint text _⟩
  · rw [Cst.firstError?_eq_find?, List.find?_eq_none]
    simp only [Bool.not_eq_true]
  · rintro ⟨e, he⟩
    cases ofCst_error_iff.mp he with
    | error herror => exact .inl herror
    | noPackage _ hclause => exact .inr hclause
  · rintro (herror | hclause)
    · exact ⟨_, ofCst_of_hasError herror⟩
    · cases herror : root.hasError with
      | true => exact ⟨_, ofCst_of_hasError herror⟩
      | false => exact ⟨_, ofCst_of_noPackage herror hclause⟩

end SourceFile

namespace Sample

/-- A tree that announces an error where there is none, and then misses a brace on its second row. -/
def misflagged : Cst :=
  branch "source_file" 0 13 none
    [.node { kind := "package_clause", start := 0, stop := 9, named := true, flagged := true }
      [token "package" 0 7, named "package_identifier" 8 9 none],
      branch "block" 10 12 none
        [token "\x7b" 10 11, .node { kind := "\x7d", start := 12, stop := 12, missing := true } []]]

end Sample

/-- The missing brace is the error of that tree; a tree without errors may still lack its package clause. -/
theorem SourceFile.ofCst_refuses_misflagged :
    ofCst (utf8 "package p\n\x7b \n") Sample.misflagged = .error (.missing "\x7d" 2 3) ∧
      ¬ ∃ f, ofCst (utf8 "package p\n") Sample.packageClause = .ok f := by
  constructor
  · exact ((ofCst_refuses _ _).2.2.2.2.1 _).mpr (.error rfl)
  · rintro ⟨f, hf⟩
    have hclause : ∀ c ∈ Sample.packageClause.namedChildren, c.kind ≠ "package_clause" := by decide
    obtain ⟨e, he⟩ := (ofCst_refuses (utf8 "package p\n") Sample.packageClause).2.2.2.1.mpr (.inr hclause)
    rw [he] at hf
    cases hf

end Stopwatch
