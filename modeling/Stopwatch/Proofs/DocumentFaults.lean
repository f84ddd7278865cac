import Mathlib
import Stopwatch.Toml.Document

/-!
# Faults of documents

A document that follows the format is refused for the length of a numeral only, and only beyond the limit:
`Toml.read_fair`. The property is kept by every way to put readers together (`Toml.Fair.bind`,
`Toml.Fair.map`), and one reader alone takes numbers.
-/

namespace Stopwatch.Toml

/-- A result is fair if it refuses a numeral for its length only when it is too long. -/
def Fair {α : Type} (r : Except Fault α) : Prop := ∀ n, r = .error (.tooManyDigits n) → digitLimit < n

section Combinations

variable {α β : Type}

theorem fair_ok (a : α) : Fair (.ok a : Except Fault α) := fun _ h => nomatch h

theorem fair_pure (a : α) : Fair (pure a : Except Fault α) := fair_ok a

theorem fair_malformed : Fair (.error .malformed : Except Fault α) := fun _ h => nomatch h

theorem Fair.bind {r : Except Fault α} {f : α → Except Fault β} (hr : Fair r) (hf : ∀ a, Fair (f a)) :
    Fair (r >>= f) := by
  intro n h
  cases r with
  | error e => exact hr n (congrArg Except.error (Except.error.inj h))
  | ok a => exact hf a n h

theorem Fair.map {r : Except Fault α} (hr : Fair r) (f : α → β) : Fair (r.map f) := by
  intro n h
  cases r with
  | error e => exact hr n (congrArg Except.error (Except.error.inj h))
  | ok a => cases h

theorem orMalformed_fair (a : Option α) : Fair (orMalformed a) := by
  cases a with
  | none => exact fair_malformed
  | some a => exact fair_ok a

end Combinations

/-! ## Strings -/

theorem codedChar_fair (digits : Nat) (cs : List Char) : Fair (codedChar digits cs) := by
  unfold codedChar
  split
  · split_ifs
    · exact fair_ok _
    · exact fair_malformed
  · exact fair_malformed

theorem escape_fair (multiline : Bool) (cs : List Char) : Fair (escape multiline cs) := by
  fun_cases escape multiline cs
  all_goals first
    | exact fair_ok _
    | exact fair_malformed
    | exact codedChar_fair _ _

theorem basicString_fair (multiline : Bool) (n : Nat) (done cs : List Char) :
    Fair (basicString multiline n done cs) := by
  fun_induction basicString multiline n done cs with
  | case1 | case2 | case7 => exact fair_malformed
  | case3 | case4 => exact fair_ok _
  | case5 _ _ _ _ _ ih | case8 _ _ _ _ _ _ _ ih => exact ih
  | case6 n done cs ih => exact (escape_fair _ _).bind fun x => ih x.1 x.2

theorem literalString_fair (multiline : Bool) (quotes : String) (done cs : List Char) :
    Fair (literalString multiline quotes done cs) := by
  fun_induction literalString multiline quotes done cs with
  | case1 | case3 => exact fair_malformed
  | case2 => exact fair_ok _
  | case4 _ _ _ _ _ ih => exact ih

theorem multilineString_fair (quote : Char) (cs : List Char) : Fair (multilineString quote cs) := by
  unfold multilineString
  dsimp only
  split
  · exact (basicString_fair _ _ _ _).bind fun _ => fair_pure _
  · exact (literalString_fair _ _ _ _).bind fun _ => fair_pure _

theorem lineString_fair (quote : Char) (cs : List Char) : Fair (lineString quote cs) := by
  unfold lineString
  dsimp only
  split
  · exact (basicString_fair _ _ _ _).bind fun _ => fair_pure _
  · exact (literalString_fair _ _ _ _).bind fun _ => fair_pure _

/-! ## Numbers -/

theorem number?_fair {cs : List Char} {r : Except Fault (Value × List Char)} (h : number? cs = some r) : Fair r := by
  unfold number? at h
  split at h
  · cases h
    exact fair_ok _
  · simp only [Option.map_eq_some_iff] at h
    obtain ⟨⟨ds, rest⟩, -, rfl⟩ := h
    simp only
    by_cases hfloat : (skipExponent (skipFraction rest)).length < rest.length
    · rw [if_pos hfloat]
      exact fair_ok _
    · rw [if_neg hfloat]
      by_cases hlong : digitLimit < ds.length
      · rw [if_pos hlong]
        intro n h
        cases h
        exact hlong
      · rw [if_neg hlong]
        exact fair_ok _

theorem date?_fair {cs : List Char} {r : Except Fault (Value × List Char)} (h : date? cs = some r) : Fair r := by
  unfold date? at h
  simp only [Option.map_eq_some_iff] at h
  obtain ⟨⟨⟨year, month, day⟩, rest⟩, -, rfl⟩ := h
  simp only
  split_ifs
  · exact fair_malformed
  · split
    · split_ifs
      · split <;> exact fair_ok _
      · exact fair_ok _
    · exact fair_ok _

theorem plain_fair (cs : List Char) : Fair (plain cs) := by
  unfold plain
  split
  · exact fair_ok _
  · exact fair_ok _
  · split
    · exact date?_fair ‹_›
    · split
      · exact fair_ok _
      · split
        · exact number?_fair ‹_›
        · split
          · exact fair_ok _
          · exact fair_malformed

/-! ## Documents -/

theorem skipComment_fair (cs : List Char) : Fair (skipComment cs) := by
  fun_cases skipComment cs
  · exact fair_malformed
  · exact fair_ok _
  · exact fair_ok _

theorem skipBetween_fair (n : Nat) (cs : List Char) : Fair (skipBetween n cs) := by
  induction n generalizing cs with
  | zero => exact fair_ok _
  | succ n ih =>
    refine (skipComment_fair _).bind fun rest => ?_
    split_ifs
    · exact ih rest
    · exact fair_pure _

theorem keyPart_fair (cs : List Char) : Fair (keyPart cs) := by
  fun_cases keyPart cs
  · exact lineString_fair _ _
  · exact lineString_fair _ _
  · exact fair_malformed
  · exact fair_ok _

theorem key_fair (n : Nat) (cs : List Char) : Fair (key n cs) := by
  induction n generalizing cs with
  | zero => exact fair_malformed
  | succ n ih =>
    refine (keyPart_fair cs).bind fun ⟨part, rest⟩ => ?_
    dsimp only
    split
    · exact (ih _).bind fun _ => fair_pure _
    · exact fair_pure _

theorem keyAndEquals_fair (cs : List Char) : Fair (keyAndEquals cs) := by
  refine (key_fair _ _).bind fun ⟨k, rest⟩ => ?_
  dsimp only
  split
  · exact fair_pure _
  · exact fair_malformed

/-- The three readers of values call each other with less to bound them. -/
theorem values_fair (n : Nat) : (∀ cs, Fair (value n cs)) ∧ (∀ done cs, Fair (elements n done cs)) ∧
    ∀ done frozen cs, Fair (inlineEntries n done frozen cs) := by
  induction n with
  | zero => exact ⟨fun _ => fair_malformed, fun _ _ => fair_malformed, fun _ _ _ => fair_malformed⟩
  | succ n ih =>
    obtain ⟨hvalue, helements, hentries⟩ := ih
    refine ⟨fun cs => ?_, fun done cs => ?_, fun done frozen cs => ?_⟩
    · unfold value
      split
      · exact (multilineString_fair _ _).map _
      · exact (multilineString_fair _ _).map _
      · split
        · exact (lineString_fair _ _).map _
        · exact (lineString_fair _ _).map _
        · exact helements _ _
        · split
          · exact fair_ok _
          · exact hentries _ _ _
        · exact plain_fair _
    · unfold elements
      refine (skipBetween_fair _ _).bind fun cs => ?_
      split
      · exact fair_pure _
      · refine (hvalue _).bind fun x => (skipBetween_fair _ _).bind fun cs => ?_
        split
        · exact fair_pure _
        · exact helements _ _
        · exact fair_malformed
    · unfold inlineEntries
      refine (keyAndEquals_fair _).bind fun ⟨k, rest⟩ => (hvalue _).bind fun ⟨v, rest⟩ => ?_
      dsimp only
      by_cases hfrozen : covers frozen k
      · rw [if_pos hfrozen]
        exact fair_malformed
      · rw [if_neg hfrozen]
        split
        · exact fair_malformed
        · split
          · exact fair_pure _
          · exact hentries _ _ _
          · exact fair_malformed

theorem statement_fair (p : Draft) (cs : List Char) : Fair (statement p cs) := by
  fun_cases statement p cs
  · exact (key_fair _ _).bind fun _ => (orMalformed_fair _).bind fun _ => (orMalformed_fair _).bind
      fun _ => fair_pure _
  · exact (key_fair _ _).bind fun _ => (orMalformed_fair _).bind fun _ => (orMalformed_fair _).bind
      fun _ => fair_pure _
  · exact fair_ok _
  · exact (keyAndEquals_fair _).bind fun _ => ((values_fair _).1 _).bind fun _ => (orMalformed_fair _).bind
      fun _ => fair_pure _

theorem statements_fair (n : Nat) (p : Draft) (cs : List Char) : Fair (statements n p cs) := by
  induction n generalizing p cs with
  | zero => exact fair_malformed
  | succ n ih =>
    unfold statements
    split
    · exact fair_ok _
    · exact ih _ _
    · refine (statement_fair _ _).bind fun x => (skipComment_fair _).bind fun cs => ?_
      split
      · exact fair_pure _
      · exact ih _ _
      · exact fair_malformed

/-- **A document is refused for the length of a numeral only when that is too long.** -/
theorem read_fair (cs : List Char) : Fair (read cs) := (statements_fair _ _ _).map _

end Stopwatch.Toml
