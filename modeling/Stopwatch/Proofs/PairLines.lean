import Mathlib
import Stopwatch.Proofs.FreshNames
import Stopwatch.Proofs.Pieces
import Stopwatch.Proofs.Rows
import Stopwatch.Timing.Transform

/-!
# A pair in front of a body

The four lines of a pair, and what becomes of a declaration when a pair is put in front of its body. The
pair was not read from a source, so no empty line is kept around it, and what was printed for the
statements before is printed for them still.

* `Pair.lines`: the four lines.
* `Print.decl_full`, `Print.decl_empty`: a function with statements and one without any.
* `Print.decl_timed`: either of them with a pair.
-/

namespace Stopwatch

open Text

/-! ## The four lines -/

namespace Pair

/-- The lines of the pair for the function `name`, below a signature. -/
def lines (indent template name identifier : Text) : List Text :=
  [indent ++ identifier ++ utf8 " := time.Now()",
    indent ++ utf8 "defer func() \x7b",
    indent ++ indent ++ utf8 "fmt.Printf(" ++ Quoted.encode (reportFormat template name) ++
      utf8 ", time.Since(" ++ identifier ++ utf8 "))",
    indent ++ utf8 "\x7d()"]

/-- The strokes of a pair. -/
def strokes (template name identifier : Text) : List Stroke :=
  [.line 1 (identifier ++ utf8 " := time.Now()"),
    .line 1 (utf8 "defer func() \x7b"),
    .line 2 (utf8 "fmt.Printf(" ++ Quoted.encode (reportFormat template name) ++
      utf8 ", time.Since(" ++ identifier ++ utf8 "))"),
    .line 1 (utf8 "\x7d"), .extend (utf8 "("), .extend [], .extend (utf8 ")")]

theorem stmt_start (depth : Int) (template name identifier : Text) :
    Print.stmt depth (build template name identifier).start =
      [.line depth (identifier ++ utf8 " := time.Now()")] := by
  have hstmt : Print.stmt depth (build template name identifier).start =
      [.line depth (identifier ++ (32 :: utf8 ":=" ++ [32]) ++
        (utf8 "time" ++ 46 :: utf8 "Now" ++ utf8 "(" ++ [] ++ utf8 ")"))] := rfl
  have htext : (32 :: utf8 ":=" ++ [32]) ++ (utf8 "time" ++ 46 :: utf8 "Now" ++ utf8 "(" ++ [] ++
      utf8 ")") = utf8 " := time.Now()" := by decide +kernel
  rw [hstmt, List.append_assoc, htext]

theorem stmt_report (depth : Int) (template name identifier : Text) :
    Print.stmt depth (build template name identifier).report =
      [.line depth (utf8 "defer func() \x7b"),
        .line (depth + 1) (utf8 "fmt.Printf(" ++ Quoted.encode (reportFormat template name) ++
          utf8 ", time.Since(" ++ identifier ++ utf8 "))"),
        .line depth (utf8 "\x7d"), .extend (utf8 "("), .extend [], .extend (utf8 ")")] := by
  have hstmt : Print.stmt depth (build template name identifier).report =
      [.line depth (utf8 "defer " ++ (utf8 "func() " ++ utf8 "\x7b")),
        .line (depth + 1) (utf8 "fmt" ++ 46 :: utf8 "Printf" ++ utf8 "(" ++
          (Quoted.encode (reportFormat template name) ++ utf8 ", " ++
            (utf8 "time" ++ 46 :: utf8 "Since" ++ utf8 "(" ++ identifier ++ utf8 ")")) ++ utf8 ")"),
        .line depth (utf8 "\x7d"), .extend (utf8 "("), .extend [], .extend (utf8 ")")] := rfl
  have hdefer : utf8 "defer " ++ (utf8 "func() " ++ utf8 "\x7b") = utf8 "defer func() \x7b" := by
    decide +kernel
  have hprint : utf8 "fmt" ++ 46 :: utf8 "Printf" ++ utf8 "(" = utf8 "fmt.Printf(" := by
    decide +kernel
  have hsince : utf8 ", " ++ (utf8 "time" ++ 46 :: utf8 "Since" ++ utf8 "(") =
      utf8 ", time.Since(" := by decide +kernel
  have hclose : utf8 ")" ++ utf8 ")" = utf8 "))" := by decide +kernel
  rw [hstmt, hdefer, hprint, ← hsince, ← hclose]
  simp only [List.append_assoc]

theorem opens_strokes (template name identifier : Text) :
    Stroke.Opens (strokes template name identifier) :=
  ⟨fun e h => by simp [strokes] at h, fun t rest h => by simp [strokes] at h⟩

theorem lines_strokes (indent template name identifier : Text) :
    Stroke.lines indent (strokes template name identifier) =
      lines indent template name identifier := by
  have hline : ∀ (depth : Int) (t u : Text), u ≠ [] →
      Stroke.indented indent depth (t ++ u) = indent.repeated depth ++ (t ++ u) :=
    fun depth t u hu => if_neg (by simp [hu])
  have hone : indent.repeated 1 = indent := by simp [repeated]
  have htwo : indent.repeated 2 = indent ++ indent := by simp [repeated, List.replicate]
  have hnow := hline 1 identifier (utf8 " := time.Now()") (by decide +kernel)
  have hdefer := hline 1 [] (utf8 "defer func() \x7b") (by decide +kernel)
  have hprint := hline 2 (utf8 "fmt.Printf(" ++ Quoted.encode (reportFormat template name) ++
    utf8 ", time.Since(" ++ identifier) (utf8 "))") (by decide +kernel)
  have hbrace := hline 1 [] (utf8 "\x7d") (by decide +kernel)
  have hcall : utf8 "\x7d" ++ utf8 "(" ++ [] ++ utf8 ")" = utf8 "\x7d()" := by decide +kernel
  rw [List.nil_append] at hdefer hbrace
  simp only [Stroke.lines, Stroke.run, strokes, Stroke.runFrom, hnow, hdefer, hprint, hbrace, hone, htwo,
    Except.map, Except.toOption, Option.getD_some, lines, ← hcall]
  simp

/-- The last line of a pair is not empty. -/
theorem exists_lines_eq (indent template name identifier : Text) :
    ∃ init last, last ≠ [] ∧ lines indent template name identifier = init ++ [last] := by
  have hcall : utf8 "\x7d()" ≠ [] := by decide +kernel
  exact ⟨[_, _, _], indent ++ utf8 "\x7d()", by simp [hcall], rfl⟩

theorem newline_notMem_encode (t : Text) : newline ∉ Quoted.encode t := by
  have hescape : ∀ b : UInt8, newline ∉ Quoted.escape b := by decide +kernel
  intro h
  rcases List.mem_append.mp h with h | h
  · rcases List.mem_cons.mp h with h | h
    · exact absurd h (by decide)
    · obtain ⟨b, -, hb⟩ := List.mem_flatMap.mp h
      exact hescape b hb
  · exact absurd h (by decide)

/-- The lines of a pair hold no line feed, so they are four lines of the text. -/
theorem newline_notMem_lines {indent identifier : Text} (hindent : newline ∉ indent)
    (hidentifier : newline ∉ identifier) (template name : Text) :
    ∀ l ∈ lines indent template name identifier, newline ∉ l := by
  have hencode := newline_notMem_encode (reportFormat template name)
  have hnow : newline ∉ utf8 " := time.Now()" := by decide +kernel
  have hdefer : newline ∉ utf8 "defer func() \x7b" := by decide +kernel
  have hprint : newline ∉ utf8 "fmt.Printf(" := by decide +kernel
  have hsince : newline ∉ utf8 ", time.Since(" := by decide +kernel
  have hclose : newline ∉ utf8 "))" := by decide +kernel
  have hbrace : newline ∉ utf8 "\x7d()" := by decide +kernel
  simp [lines, hindent, hidentifier, hencode, hnow, hdefer, hprint, hsince, hclose, hbrace]

end Pair

/-! ## In front of a body -/

namespace Print

/-- A node that was not read from a source is followed by no empty line in a body. -/
theorem sequence_unplaced (depth : Int) (ns : List Node) :
    sequence depth (some {}) ns = sequence depth none ns := by
  cases ns <;> rfl

theorem sequence_pair (template name identifier : Text) (ns : List Node) :
    sequence 1 none ((Pair.build template name identifier).stmts ++ ns) =
      Pair.strokes template name identifier ++ sequence 1 none ns := by
  have hseq : sequence 1 none ((Pair.build template name identifier).stmts ++ ns) =
      stmt 1 (Pair.build template name identifier).start ++
        (stmt 1 (Pair.build template name identifier).report ++ sequence 1 (some {}) ns) := rfl
  rw [hseq, sequence_unplaced, Pair.stmt_start, Pair.stmt_report]
  rfl

/-- What follows the opening brace of a body with statements. -/
def afterBrace (m : Mark) (b : Body Node) : List Stroke :=
  sequence 1 none b.stmts ++ [.line 0 (utf8 "\x7d")] ++ trailing m

/-- A function with statements: its signature and the opening brace, then the rest. -/
theorem decl_full (m : Mark) (h : FuncHead) {b : Body Node} (hb : b.stmts ≠ []) :
    decl (.funcDecl m h (some b)) =
      (fragment 0 h.signature ++ [.extend (utf8 " \x7b")]) ++ afterBrace m b := by
  have hbrace : utf8 " " ++ utf8 "\x7b" = utf8 " \x7b" := by decide +kernel
  have hempty : b.stmts.isEmpty = false := by simpa using hb
  simp [decl, body, braces, afterBrace, hempty, hbrace]

theorem decl_empty (m : Mark) (h : FuncHead) {b : Body Node} (hb : b.stmts = []) :
    decl (.funcDecl m h (some b)) =
      fragment 0 h.signature ++ [.extend (utf8 " \x7b\x7d")] ++ trailing m := by
  have hbraces : utf8 " " ++ utf8 "\x7b\x7d" = utf8 " \x7b\x7d" := by decide +kernel
  simp [decl, body, braces, hb, hbraces]

/-- A pair in front of the body stands between the opening brace and the rest. -/
theorem decl_timed (m : Mark) (h : FuncHead) (b : Body Node) (template name identifier : Text) :
    decl (.funcDecl m h (some ⟨b.mark, (Pair.build template name identifier).stmts ++ b.stmts⟩)) =
      (fragment 0 h.signature ++ [.extend (utf8 " \x7b")]) ++ Pair.strokes template name identifier ++
        afterBrace m b := by
  rw [decl_full m h (by simp [Pair.stmts]), afterBrace, sequence_pair]
  simp only [List.append_assoc, afterBrace]

end Print

/-! ## Comments behind a declaration -/

/-- The comment behind a node, with a space in front of it. -/
def Mark.comment (m : Mark) : Text :=
  match m.trailing with
  | some (b :: t) => 32 :: b :: t
  | _ => []

namespace Stroke

theorem sound_trailing (m : Mark) (e : PrintError) : .reject e ∉ Print.trailing m :=
  not_mem_reject_of_isPlain (Print.isPlain_trailing m) e

theorem lines_trailing {a : List Stroke} (ha : Opens a) {indent : Text} {init : List Text} {last : Text}
    (hlines : lines indent a = init ++ [last]) (m : Mark) :
    lines indent (a ++ Print.trailing m) = init ++ [last ++ m.comment] := by
  obtain ⟨span, trailing⟩ := m
  have hnone : lines indent (a ++ []) = init ++ [last ++ []] := by
    rw [List.append_nil, List.append_nil, hlines]
  cases trailing with
  | none => exact hnone
  | some t =>
    cases t with
    | nil => exact hnone
    | cons b t => exact lines_extend ha hlines _

end Stroke

end Stopwatch
