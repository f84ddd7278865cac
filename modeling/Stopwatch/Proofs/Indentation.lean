import Mathlib
import Stopwatch.Proofs.Rows
import Stopwatch.Proofs.TimedLines

/-!
# The style of indentation

Strokes do not know how wide a level of indentation is. So the same strokes carried out for two styles give
the same lines but for the levels in front of them, and give up at the same stroke.

* `SameButIndent`: two lines with the same text behind the same number of levels.
* `Stroke.runFrom_reindents`: one stroke after the other keeps the lines of both styles together.
* `SourceFile.render_reindents`: the text of any file in two styles. An empty line in the one is empty in the
  other, as long as a level is not empty, so the same empty lines are left out at the end.
-/

namespace Stopwatch

open Text

/-- The lines `l` and `l'` are the same text behind the same number of levels, in two styles. -/
def SameButIndent (indent indent' l l' : Text) : Prop :=
  ∃ (k : Nat) (t : Text), l = indent.repeated k ++ t ∧ l' = indent'.repeated k ++ t

namespace SameButIndent

variable {indent indent' l l' : Text}

/-- A line without indentation. -/
theorem refl (indent indent' t : Text) : SameButIndent indent indent' t t := ⟨0, t, rfl, rfl⟩

theorem append (h : SameButIndent indent indent' l l') (u : Text) :
    SameButIndent indent indent' (l ++ u) (l' ++ u) := by
  obtain ⟨k, t, rfl, rfl⟩ := h
  exact ⟨k, t ++ u, List.append_assoc _ _ _, List.append_assoc _ _ _⟩

theorem indented (indent indent' : Text) (depth : Int) (t : Text) :
    SameButIndent indent indent' (Stroke.indented indent depth t) (Stroke.indented indent' depth t) := by
  unfold Stroke.indented
  split
  · exact refl _ _ _
  · exact ⟨depth.toNat, t, rfl, rfl⟩

theorem repeated_append_eq_nil_iff (hindent : indent ≠ []) (k : Nat) (t : Text) :
    indent.repeated k ++ t = [] ↔ k = 0 ∧ t = [] := by
  cases k with
  | zero => simp [repeated]
  | succ k => simp [repeated, List.replicate_succ, hindent]

/-- Either both lines are empty or none is. -/
theorem eq_nil_iff (h : SameButIndent indent indent' l l') (hindent : indent ≠ [])
    (hindent' : indent' ≠ []) : l = [] ↔ l' = [] := by
  obtain ⟨k, t, rfl, rfl⟩ := h
  rw [repeated_append_eq_nil_iff hindent, repeated_append_eq_nil_iff hindent']

end SameButIndent

/-! ## Lines -/

namespace Stroke

/-- **Carrying out strokes in two styles.** Either both runs fail alike, or their lines differ in the
indentation only. -/
theorem runFrom_reindents {indent indent' : Text} {done done' : List Text}
    (h : List.Forall₂ (SameButIndent indent indent') done done') (strokes : List Stroke) :
    (∃ e, runFrom indent done strokes = .error e ∧ runFrom indent' done' strokes = .error e) ∨
      ∃ out out', runFrom indent done strokes = .ok out ∧ runFrom indent' done' strokes = .ok out' ∧
        List.Forall₂ (SameButIndent indent indent') out out' := by
  induction strokes generalizing done done' with
  | nil => exact Or.inr ⟨done, done', by rw [runFrom], by rw [runFrom], h⟩
  | cons s strokes ih =>
    cases s with
    | line d t => exact ih (.cons (.indented indent indent' d t) h)
    | raw t => exact ih (.cons (.refl indent indent' t) h)
    | extend t =>
      cases h with
      | nil => exact Or.inl ⟨.noLine, rfl, rfl⟩
      | cons hl hrest => exact ih (.cons (hl.append t) hrest)
    | reject e => exact Or.inl ⟨e, by rw [runFrom], by rw [runFrom]⟩

end Stroke

/-- A printed line that holds line feeds is indented at its start only. -/
theorem SameButIndent.splitLines {indent indent' l l' : Text} (hclean : newline ∉ indent)
    (hclean' : newline ∉ indent') (h : SameButIndent indent indent' l l') :
    List.Forall₂ (SameButIndent indent indent') l.splitLines l'.splitLines := by
  obtain ⟨k, t, rfl, rfl⟩ := h
  obtain ⟨row, rows, hrows⟩ := List.exists_cons_of_ne_nil (splitLines_ne_nil t)
  rw [splitLines_append_of_notMem (fun hmem => hclean (mem_of_mem_repeated hmem)) hrows,
    splitLines_append_of_notMem (fun hmem => hclean' (mem_of_mem_repeated hmem)) hrows]
  exact .cons ⟨k, row, rfl, rfl⟩ (List.forall₂_same.mpr fun r _ => .refl indent indent' r)

theorem Text.EndsEmpty.congr {n : Nat} {lines lines' : List Text}
    (h : lines'.map List.isEmpty = lines.map List.isEmpty) (hn : EndsEmpty n lines) :
    EndsEmpty n lines' := by
  obtain ⟨init, last, hlast, rfl⟩ := hn
  simp only [List.map_append, List.map_replicate, List.map_singleton] at h
  obtain ⟨front, back, rfl, hfront, hback⟩ := List.map_eq_append_iff.mp h
  obtain ⟨init', last', rfl, hinit, hlast'⟩ := List.map_eq_append_iff.mp hfront
  obtain ⟨l, rfl, hl⟩ := List.map_eq_singleton_iff.mp hlast'
  have hempty : back = List.replicate n [] := by
    obtain ⟨hlength, hmem⟩ := List.eq_replicate_iff.mp hback
    refine List.eq_replicate_iff.mpr ⟨by simpa using hlength, fun t ht => ?_⟩
    exact List.isEmpty_iff.mp (hmem _ (List.mem_map_of_mem ht))
  refine ⟨init', l, hlast.imp (fun hne => ?_) (fun hnil => ?_), by rw [hempty]⟩
  · rwa [Ne, ← List.isEmpty_iff, hl, List.isEmpty_iff]
  · rwa [hnil, List.map_nil, List.map_eq_nil_iff] at hinit

theorem SameButIndent.map_isEmpty {indent indent' : Text} (hindent : indent ≠ []) (hindent' : indent' ≠ [])
    {lines lines' : List Text} (h : List.Forall₂ (SameButIndent indent indent') lines lines') :
    lines'.map List.isEmpty = lines.map List.isEmpty := by
  induction h with
  | nil => rfl
  | cons hl _ ih =>
    have hempty := hl.eq_nil_iff hindent hindent'
    rw [List.map_cons, List.map_cons, ih, Bool.eq_iff_iff.mpr
      (List.isEmpty_iff.trans (hempty.symm.trans List.isEmpty_iff.symm))]

/-- The finished texts of lines without line feeds in two styles. -/
theorem SameButIndent.splitLines_finished {indent indent' : Text} (hindent : indent ≠ [])
    (hindent' : indent' ≠ []) {lines lines' : List Text}
    (h : List.Forall₂ (SameButIndent indent indent') lines lines') (hclean : ∀ l ∈ lines, newline ∉ l)
    (hclean' : ∀ l ∈ lines', newline ∉ l) :
    List.Forall₂ (SameButIndent indent indent') (finished lines).splitLines
      (finished lines').splitLines := by
  cases h with
  | nil => exact List.forall₂_same.mpr fun l _ => .refl indent indent' l
  | @cons l l' ls ls' hl hrest =>
    have hall : List.Forall₂ (SameButIndent indent indent') (l :: ls) (l' :: ls') := .cons hl hrest
    obtain ⟨n, hn⟩ := exists_endsEmpty (List.cons_ne_nil l ls)
    have hn' := hn.congr (map_isEmpty hindent hindent' hall)
    -- Both texts lack the same number of empty lines at the end.
    have hend : List.Forall₂ (SameButIndent indent indent') (l :: ls ++ [[]]) (l' :: ls' ++ [[]]) :=
      List.rel_append hall (.cons (.refl indent indent' []) .nil)
    rw [← Text.splitLines_finished hn hclean, ← Text.splitLines_finished hn' hclean'] at hend
    have hfront := List.forall₂_take_append _ _ _ hend
    have hlength := hend.length_eq
    rw [List.length_append, List.length_append, Nat.add_right_cancel_iff] at hlength
    rwa [← hlength, List.take_left] at hfront

/-- **The style of indentation changes nothing but the indentation.** Any tree is refused for the same reason
in two styles, or its two texts have the same lines but for the levels in front of them. -/
theorem SourceFile.render_reindents (f : SourceFile) (s s' : Settings) (hindent : s.indent ≠ [])
    (hindent' : s'.indent ≠ []) :
    (∃ e, f.render s.indent = .error e ∧ f.render s'.indent = .error e) ∨
      ∃ out out', f.render s.indent = .ok out ∧ f.render s'.indent = .ok out' ∧
        List.Forall₂ (SameButIndent s.indent s'.indent) out.splitLines out'.splitLines := by
  have hstart : List.Forall₂ (SameButIndent s.indent s'.indent) [] [] := .nil
  rcases Stroke.runFrom_reindents hstart f.strokes with ⟨e, he, he'⟩ | ⟨out, out', hout, hout', h⟩
  · exact Or.inl ⟨e, by rw [render, Stroke.run, he]; rfl, by rw [render, Stroke.run, he']; rfl⟩
  · refine Or.inr ⟨finished (out.reverse.flatMap splitLines), finished (out'.reverse.flatMap splitLines),
      ?_, ?_, ?_⟩
    · rw [render, Stroke.run, hout, finished, joinLines_flatMap_splitLines]
      rfl
    · rw [render, Stroke.run, hout', finished, joinLines_flatMap_splitLines]
      rfl
    · have hrows : List.Forall₂ (SameButIndent s.indent s'.indent) (out.reverse.flatMap splitLines)
          (out'.reverse.flatMap splitLines) := List.rel_flatMap (List.rel_reverse h) fun _ _ hl =>
        SameButIndent.splitLines (Print.newline_notMem_indent s) (Print.newline_notMem_indent s') hl
      exact SameButIndent.splitLines_finished hindent hindent' hrows newline_notMem_flatMap_splitLines
        newline_notMem_flatMap_splitLines

namespace Sample

/-- Four spaces for a level. -/
def spaces : Settings := { useTabs := false }

/-- A function with a pair, and a statement that goes on inside a raw string. -/
def nestedCalls : SourceFile where
  decls :=
    [.packageClause {} (utf8 "p"),
      .funcDecl {} ⟨utf8 "f", .single (utf8 "func f()"), none⟩
        (some ⟨{}, (Pair.build (utf8 "%v") (utf8 "f") (utf8 "t")).stmts ++
          [.rawStmt {} "expression_statement" [⟨0, utf8 "g(\x60a", false⟩, ⟨0, utf8 "  b\x60)", true⟩]]⟩)]

end Sample

theorem SourceFile.render_reindents_nestedCalls :
    Settings.indent {} ≠ [] ∧ Sample.spaces.indent ≠ [] ∧
      ∃ out out', Sample.nestedCalls.render (Settings.indent {}) = .ok out ∧
        Sample.nestedCalls.render Sample.spaces.indent = .ok out' ∧
        List.Forall₂ (SameButIndent (Settings.indent {}) Sample.spaces.indent) out.splitLines
          out'.splitLines := by
  have htabs : Settings.indent {} ≠ [] := by decide
  have hspaces : Sample.spaces.indent ≠ [] := by decide
  have hprints : (Sample.nestedCalls.render (Settings.indent {})).isOk = true := by decide +kernel
  rcases SourceFile.render_reindents Sample.nestedCalls {} Sample.spaces htabs hspaces with ⟨e, he, -⟩ | h
  · rw [he] at hprints
    exact absurd hprints Bool.false_ne_true
  · exact ⟨htabs, hspaces, h⟩

end Stopwatch
