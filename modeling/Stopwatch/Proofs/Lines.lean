import Mathlib
import Stopwatch.Syntax.Print

/-!
# From strokes to lines

Carrying out strokes only ever touches the last line that is there: earlier lines stay as they are, and
the last one can grow at its end. So the lines of strokes that start a line of their own come below those
that are there.

* `Stroke.runFrom_append`: strokes may be carried out in two goes.
* `Stroke.Opens.runFrom_eq`: strokes that stand on their own.
* `Print.runFrom_fragment`: a fragment gives one line for each of its own.
-/

namespace Stopwatch

namespace Stroke

/-- Strokes may be carried out in two goes. -/
theorem runFrom_append (indent : Text) (done : List Text) (a b : List Stroke) :
    runFrom indent done (a ++ b) = (runFrom indent done a).bind fun d => runFrom indent d b := by
  fun_induction runFrom indent done a with
  | case1 done => rfl
  | case2 done d t rest ih => exact ih
  | case3 done t rest ih => exact ih
  | case4 t rest => rfl
  | case5 l done t rest ih => exact ih
  | case6 done e rest => simp [runFrom, Except.bind]

/-- Two goes that end well end well one by one. -/
theorem runFrom_append_ok {indent : Text} {done out : List Text} {a b : List Stroke}
    (h : runFrom indent done (a ++ b) = .ok out) :
    ∃ mid, runFrom indent done a = .ok mid ∧ runFrom indent mid b = .ok out := by
  rw [runFrom_append] at h
  cases ha : runFrom indent done a with
  | error e => rw [ha] at h; exact absurd h (by simp [Except.bind])
  | ok mid => rw [ha] at h; exact ⟨mid, rfl, h⟩

/-- Whether a stroke starts a line, or adds to one behind a space. -/
def isPlain : Stroke → Bool
  | .line .. | .raw _ => true
  | .extend t => t.head? == some 32
  | .reject _ => false

/-! ## Strokes that stand on their own -/

/-- The lines of strokes that follow no others; none if they cannot be carried out. -/
def lines (indent : Text) (strokes : List Stroke) : List Text :=
  (run indent strokes).toOption.getD []

/-- Strokes that never give up, and of which the first one, if there is one, starts a line. -/
structure Opens (strokes : List Stroke) : Prop where
  sound : ∀ e, .reject e ∉ strokes
  head : ∀ t rest, strokes ≠ .extend t :: rest

theorem opens_nil : Opens [] := ⟨fun _ h => List.not_mem_nil h, fun _ _ h => List.cons_ne_nil _ _ h.symm⟩

theorem Opens.append {a b : List Stroke} (ha : Opens a) (hb : Opens b) : Opens (a ++ b) where
  sound e h := (List.mem_append.mp h).elim (ha.sound e) (hb.sound e)
  head t rest h := by
    cases a with
    | nil => exact hb.head t rest h
    | cons s a =>
      obtain ⟨rfl, -⟩ := List.cons.inj h
      exact ha.head t a rfl

/-- Behind a line anything may follow that does not give up. -/
theorem Opens.append_of_ne_nil {a b : List Stroke} (ha : Opens a) (hne : a ≠ [])
    (hb : ∀ e, .reject e ∉ b) : Opens (a ++ b) where
  sound e h := (List.mem_append.mp h).elim (ha.sound e) (hb e)
  head t rest h := by
    obtain ⟨s, a, rfl⟩ := List.exists_cons_of_ne_nil hne
    obtain ⟨rfl, -⟩ := List.cons.inj h
    exact ha.head t a rfl

theorem not_mem_reject_of_isPlain {strokes : List Stroke} (h : strokes.all isPlain = true)
    (e : PrintError) : .reject e ∉ strokes := fun hmem =>
  absurd (List.all_eq_true.mp h _ hmem) (by simp [isPlain])

/-- Once there is a line, strokes that do not give up leave the earlier lines alone. -/
theorem exists_runFrom_cons {strokes : List Stroke} (hsound : ∀ e, .reject e ∉ strokes)
    (indent l : Text) :
    ∃ own, own ≠ [] ∧ ∀ done, runFrom indent (l :: done) strokes = .ok (own ++ done) := by
  induction strokes generalizing l with
  | nil => exact ⟨[l], by simp, fun done => rfl⟩
  | cons s strokes ih =>
    have hrest : ∀ e, .reject e ∉ strokes := fun e h => hsound e (List.mem_cons_of_mem s h)
    cases s with
    | line d t =>
      obtain ⟨own, hne, hown⟩ := ih hrest (indented indent d t)
      exact ⟨own ++ [l], by simp, fun done => by rw [runFrom, hown]; simp⟩
    | raw t =>
      obtain ⟨own, hne, hown⟩ := ih hrest t
      exact ⟨own ++ [l], by simp, fun done => by rw [runFrom, hown]; simp⟩
    | extend t =>
      obtain ⟨own, hne, hown⟩ := ih hrest (l ++ t)
      exact ⟨own, hne, fun done => by rw [runFrom, hown]⟩
    | reject e => exact absurd List.mem_cons_self (hsound e)

/-- **Strokes that stand on their own add their lines below those that are there.** -/
theorem Opens.runFrom_eq {strokes : List Stroke} (h : Opens strokes) (indent : Text)
    (done : List Text) :
    runFrom indent done strokes = .ok ((lines indent strokes).reverse ++ done) ∧
      (strokes ≠ [] → lines indent strokes ≠ []) := by
  cases strokes with
  | nil => exact ⟨rfl, fun hne => absurd rfl hne⟩
  | cons s rest =>
    have hrest : ∀ e, .reject e ∉ rest := fun e he => h.sound e (List.mem_cons_of_mem s he)
    obtain ⟨l, hl⟩ : ∃ l, ∀ done, runFrom indent done (s :: rest) = runFrom indent (l :: done) rest := by
      cases s with
      | line d t => exact ⟨indented indent d t, fun done => rfl⟩
      | raw t => exact ⟨t, fun done => rfl⟩
      | extend t => exact absurd rfl (h.head t rest)
      | reject e => exact absurd List.mem_cons_self (h.sound e)
    obtain ⟨own, hne, hown⟩ := exists_runFrom_cons hrest indent l
    have hlines : lines indent (s :: rest) = own.reverse := by
      rw [lines, run, hl, hown, List.append_nil]
      rfl
    rw [hl, hown, hlines, List.reverse_reverse]
    exact ⟨rfl, fun _ => by simpa using hne⟩

theorem Opens.run_eq {strokes : List Stroke} (h : Opens strokes) (indent : Text) :
    run indent strokes = .ok (lines indent strokes) := by
  rw [run, (h.runFrom_eq indent []).1]
  simp [Except.map]

theorem lines_append {a b : List Stroke} (ha : Opens a) (hb : Opens b) (indent : Text) :
    lines indent (a ++ b) = lines indent a ++ lines indent b := by
  have hrun : run indent (a ++ b) = .ok (lines indent a ++ lines indent b) := by
    rw [run, runFrom_append, (ha.runFrom_eq indent []).1]
    simp only [Except.bind, (hb.runFrom_eq indent _).1]
    simp [Except.map]
  rw [lines, hrun]
  rfl

/-- Adding to the last line. -/
theorem lines_extend {a : List Stroke} (ha : Opens a) {indent : Text} {init : List Text} {last : Text}
    (hlines : lines indent a = init ++ [last]) (t : Text) :
    lines indent (a ++ [.extend t]) = init ++ [last ++ t] := by
  have hrun : run indent (a ++ [.extend t]) = .ok (init ++ [last ++ t]) := by
    rw [run, runFrom_append, (ha.runFrom_eq indent []).1, hlines]
    simp [Except.bind, Except.map, runFrom]
  rw [lines, hrun]
  rfl

end Stroke

/-! ## Fragments -/

/-- A line of a fragment as it is printed below `depth`. -/
def FragmentLine.printed (indent : Text) (depth : Int) (l : FragmentLine) : Text :=
  if l.verbatim then l.text else Stroke.indented indent (depth + l.depth) l.text

/-- The lines a fragment is printed as. -/
def Fragment.printed (indent : Text) (depth : Int) (f : Fragment) : List Text :=
  f.map (FragmentLine.printed indent depth)

theorem Print.runFrom_fragment (indent : Text) (depth : Int) (f : Fragment) (done : List Text) :
    Stroke.runFrom indent done (Print.fragment depth f) =
      .ok ((f.printed indent depth).reverse ++ done) := by
  unfold Print.fragment Fragment.printed
  induction f generalizing done with
  | nil => rfl
  | cons l f ih =>
    rw [List.map_cons, List.map_cons, List.reverse_cons, List.append_assoc, FragmentLine.printed]
    cases l.verbatim with
    | true => exact ih (l.text :: done)
    | false => exact ih (Stroke.indented indent (depth + l.depth) l.text :: done)

theorem Print.opens_fragment (depth : Int) (f : Fragment) : Stroke.Opens (Print.fragment depth f) := by
  refine ⟨fun e h => ?_, fun t rest h => ?_⟩
  · obtain ⟨l, -, hl⟩ := List.mem_map.mp h
    split at hl <;> cases hl
  · cases f with
    | nil => cases h
    | cons l f =>
      have hl := (List.cons.inj h).1
      simp only at hl
      split at hl <;> cases hl

theorem Print.lines_fragment (indent : Text) (depth : Int) (f : Fragment) :
    Stroke.lines indent (Print.fragment depth f) = f.printed indent depth := by
  rw [Stroke.lines, Stroke.run, Print.runFrom_fragment, List.append_nil]
  exact List.reverse_reverse _

end Stopwatch
