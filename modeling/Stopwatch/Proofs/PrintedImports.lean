import Mathlib
import Stopwatch.Proofs.Rows
import Stopwatch.Proofs.Transformation

/-!
# Imports that are printed

Printing loses no byte of a stroke but line feeds at the end of the file, so the path of an added import is
found in the text with its quotes.

* `Stroke.mem_of_runFrom`: the bytes of strokes are found in the lines.
* `SourceFile.quote_mem_of_transform`: the text of a file that imported nothing has a quote in it after the
  transformation.
-/

namespace Stopwatch

/-! ## What is printed -/

/-- The bytes that a stroke prints. -/
def Stroke.bytes : Stroke → Text
  | line _ t | raw t | extend t => t
  | reject _ => []

namespace Stroke

/-- Every byte of a stroke, and of the lines before, is found in the lines. -/
theorem mem_of_runFrom {indent : Text} {done out : List Text} {strokes : List Stroke} {b : UInt8}
    (h : runFrom indent done strokes = .ok out)
    (hb : (∃ l ∈ done, b ∈ l) ∨ ∃ s ∈ strokes, b ∈ s.bytes) : ∃ l ∈ out, b ∈ l := by
  fun_induction runFrom indent done strokes with
  | case1 done =>
    obtain rfl := Except.ok.inj h
    simpa using hb
  | case2 done d t rest ih =>
    refine ih h ?_
    obtain ⟨l, hl, hb⟩ | ⟨s, hs, hb⟩ := hb
    · exact .inl ⟨l, List.mem_cons_of_mem _ hl, hb⟩
    · rcases List.mem_cons.mp hs with rfl | hs
      · refine .inl ⟨_, List.mem_cons_self, ?_⟩
        have ht : t ≠ [] := List.ne_nil_of_mem hb
        rw [indented, if_neg ht]
        exact List.mem_append_right _ hb
      · exact .inr ⟨s, hs, hb⟩
  | case3 done t rest ih =>
    refine ih h ?_
    obtain ⟨l, hl, hb⟩ | ⟨s, hs, hb⟩ := hb
    · exact .inl ⟨l, List.mem_cons_of_mem _ hl, hb⟩
    · rcases List.mem_cons.mp hs with rfl | hs
      · exact .inl ⟨t, List.mem_cons_self, hb⟩
      · exact .inr ⟨s, hs, hb⟩
  | case4 => cases h
  | case5 l done t rest ih =>
    refine ih h ?_
    obtain ⟨l', hl, hb⟩ | ⟨s, hs, hb⟩ := hb
    · rcases List.mem_cons.mp hl with rfl | hl
      · exact .inl ⟨_, List.mem_cons_self, List.mem_append_left _ hb⟩
      · exact .inl ⟨l', List.mem_cons_of_mem _ hl, hb⟩
    · rcases List.mem_cons.mp hs with rfl | hs
      · exact .inl ⟨_, List.mem_cons_self, List.mem_append_right _ hb⟩
      · exact .inr ⟨s, hs, hb⟩
  | case6 => cases h

end Stroke

namespace Text

theorem mem_joinLines {b : UInt8} {l : Text} {ls : List Text} (hl : l ∈ ls) (hb : b ∈ l) :
    b ∈ joinLines ls := by
  induction ls with
  | nil => cases hl
  | cons k ks ih =>
    cases ks with
    | nil =>
      obtain rfl := List.mem_singleton.mp hl
      exact hb
    | cons m ms =>
      rw [joinLines_cons (by simp)]
      rcases List.mem_cons.mp hl with rfl | hl
      · exact List.mem_append_left _ hb
      · exact List.mem_append_right _ (List.mem_cons_of_mem _ (ih hl))

theorem mem_dropFinalNewlines {b : UInt8} {t : Text} (hb : b ∈ t) (hnewline : b ≠ newline) :
    b ∈ dropFinalNewlines t := by
  rw [← List.mem_reverse, ← List.takeWhile_append_dropWhile (p := (· == newline)) (l := t.reverse)] at hb
  rcases List.mem_append.mp hb with hb | hb
  · exact absurd (by simpa using List.mem_takeWhile_imp hb) hnewline
  · exact List.mem_reverse.mpr hb

end Text

theorem SourceFile.mem_of_render {f : SourceFile} {indent text : Text} {b : UInt8} (h : f.render indent = .ok text)
    (hb : ∃ s ∈ f.strokes, b ∈ s.bytes) (hnewline : b ≠ Text.newline) : b ∈ text := by
  unfold render Stroke.run at h
  cases hrun : Stroke.runFrom indent [] f.strokes with
  | error e => simp [hrun, Except.map] at h
  | ok out =>
    simp only [hrun, Except.map, Except.ok.injEq] at h
    obtain ⟨l, hl, hmem⟩ := Stroke.mem_of_runFrom hrun (.inr hb)
    rw [← h]
    exact List.mem_append_left _
      (Text.mem_dropFinalNewlines (Text.mem_joinLines (List.mem_reverse.mpr hl) hmem) hnewline)

/-! ## Imports in the text -/

namespace Print

theorem mem_sequence {n : Node} {ns : List Node} (hn : n ∈ ns) (depth : Int) (before : Option Mark) :
    ∀ s ∈ stmt depth n, s ∈ sequence depth before ns := by
  intro s hs
  induction ns generalizing before with
  | nil => cases hn
  | cons k ks ih =>
    rw [sequence]
    rcases List.mem_cons.mp hn with rfl | hn
    · exact List.mem_append_left _ (List.mem_append_right _ hs)
    · exact List.mem_append_right _ (ih hn _)

theorem mem_decls {n : Node} {ns : List Node} (hn : n ∈ ns) (before : Option Mark) :
    ∀ s ∈ decl n, s ∈ decls before ns := by
  intro s hs
  induction ns generalizing before with
  | nil => cases hn
  | cons k ks ih =>
    rw [decls]
    rcases List.mem_cons.mp hn with rfl | hn
    · exact List.mem_append_left _ (List.mem_append_right _ hs)
    · exact List.mem_append_right _ (ih hn _)

theorem mem_importSpec {spec : ImportSpec} {b : UInt8} (hb : b ∈ spec.literal) : b ∈ importSpec spec := by
  unfold importSpec
  split
  · exact List.mem_append_right _ (List.mem_cons_of_mem _ hb)
  · exact hb

/-- The literal of an import is printed. -/
theorem mem_importDecl {spec : ImportSpec} {entries : List Node} (h : spec ∈ Imports.specs entries)
    (grouped : Bool) {b : UInt8} (hb : b ∈ spec.literal) :
    ∃ s ∈ importDecl entries grouped, b ∈ s.bytes := by
  obtain ⟨n, hn, hspec⟩ := List.mem_filterMap.mp h
  obtain ⟨m, rfl⟩ : ∃ m, n = .importSpec m spec := by
    cases n <;> simp [Node.spec?] at hspec
    exact ⟨_, by rw [hspec]⟩
  unfold importDecl
  split
  · next m' spec' =>
    obtain ⟨-, rfl⟩ := Node.importSpec.inj (List.mem_singleton.mp hn)
    exact ⟨_, List.mem_cons_self, List.mem_append_right _ (mem_importSpec hb)⟩
  · refine ⟨.line 1 (importSpec spec), ?_, mem_importSpec hb⟩
    have hseq := mem_sequence hn 1 none (.line 1 (importSpec spec)) (by simp [stmt])
    exact List.mem_append_left _ (List.mem_cons_of_mem _ hseq)

end Print

namespace SourceFile

open Imports

/-- Added imports are the only new ones. -/
theorem imports_any_of_addedAll {paths : List Text} {ds es : List Node} (h : AddedAll paths ds es)
    (q : ImportSpec → Bool) : ∀ {f g : SourceFile}, f.decls = ds → g.decls = es →
    g.imports.any q = ((paths.map newSpec).any q || f.imports.any q) := by
  induction h with
  | nil ds =>
    intro f g hf hg
    simp [imports, hf, hg]
  | @cons path paths ds es fs first _ ih =>
    intro f g hf hg
    let mid : SourceFile := { f with decls := es }
    have hmid : mid.imports.any q = (q (newSpec path) || f.imports.any q) :=
      imports_any_of_added first hf rfl q
    rw [ih (f := mid) rfl hg, hmid, List.map_cons, List.any_cons]
    ac_rfl

/-- **A file that imports nothing is printed with a quote in it** when it is timed. -/
theorem quote_mem_of_transform {f : SourceFile} {s : Settings} {t : Transformed} (himports : f.imports = [])
    (h : f.transform s = .ok t) : Text.Quoted.quote ∈ t.text := by
  set timed := f.instrument s.plan ⟨f.identifiers⟩
  set ensured := timed.1.ensureImports requiredImports
  have htransform : f.transform s = (ensured.2.render s.indent).map fun text =>
      ⟨ensured.2, text, timed.2.timed, ensured.1⟩ := rfl
  cases hrender : ensured.2.render s.indent with
  | error e => simp [htransform, hrender, Except.map] at h
  | ok text =>
    rw [htransform, hrender] at h
    obtain rfl := Except.ok.inj h
    -- Both packages are missing, so both are added, and their paths stand between quotes.
    have hadded : ensured.1 = requiredImports := by
      rw [(f.timing_instrument s).imports]
      simp [hasImport, himports]
    have hany := imports_any_of_addedAll (ensureImports_added timed.1 requiredImports).2.2
      (fun spec => spec.literal.contains Text.Quoted.quote) rfl rfl
    have hnew : (ensured.1.map newSpec).any (fun spec => spec.literal.contains Text.Quoted.quote) = true := by
      rw [hadded]
      decide +kernel
    rw [hnew, Bool.true_or, List.any_eq_true] at hany
    obtain ⟨spec, hspec, hquote⟩ := hany
    obtain ⟨d, hd, hspec⟩ := List.mem_flatMap.mp hspec
    refine mem_of_render hrender ?_ (by decide)
    cases d with
    | importDecl m entries grouped =>
      obtain ⟨stroke, hstroke, hmem⟩ := Print.mem_importDecl hspec grouped (by simpa using hquote)
      refine ⟨stroke, Print.mem_decls hd none stroke ?_, hmem⟩
      rw [Print.decl]
      exact List.mem_append_left _ hstroke
    | _ => cases hspec

end SourceFile

end Stopwatch
