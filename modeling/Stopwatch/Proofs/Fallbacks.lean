import Mathlib
import Stopwatch.Proofs.DocumentFaults
import Stopwatch.Proofs.ReadSettings
import Stopwatch.Run.Batch

/-!
# Settings from any document

A document gives the entries of its section, or none; with these the fields are read one by one. What stands
in the way are three defects of a document, listed by `Settings.Refused`, each of which passes a first test: bytes
that are no text, a number with more digits than are read, and a width that passes for a numeral.

* `Settings.settings_of_any_document`: without them there are always settings, and a value that gives nothing
  leaves the default of its own field.
-/

namespace Stopwatch

namespace Settings

/-- A document holds a section. -/
def Contains (content : Text) (t : Table) : Prop :=
  ∃ (text : String) (document : Table), content.toString? = some text ∧
    Toml.read (unifyLineEnds text.toList) = .ok document ∧ document.get? sectionName = some (.table t)

/-- The entries that count: those of the section, none where there is no such section or no document. -/
inductive Entries : Option Text → Table → Prop
  | inSection {content : Text} {t : Table} (h : Contains content t) : Entries (some content) t
  | missing {content : Option Text} (h : ∀ c ∈ content, ∀ t, ¬ Contains c t) : Entries content []

/-- Which documents give no settings, and for what error: those that are no text, those with an endless numeral, and
those whose section has a misspelt width. -/
inductive Refused (content : Text) : SettingsError → Prop
  | undecodable (h : content.toString? = none) : Refused content .undecodable
  | endless {text : String} {digits : Nat} (htext : content.toString? = some text)
      (h : Toml.read (unifyLineEnds text.toList) = .error (.tooManyDigits digits))
      (hlong : Toml.digitLimit < digits) : Refused content (.tooManyDigits digits)
  | misspelt {t : Table} {s : String} {e : SettingsError} (ht : Contains content t)
      (hs : t.get? Field.tabWidth.key = some (.str s)) (h : Misspelt s) (he : numeral s = .error e) :
      Refused content e

variable {content : Text} {t : Table} {s : Settings} {e : SettingsError}

theorem sectionOf_of_contains (h : Contains content t) : sectionOf content = .ok t := by
  obtain ⟨text, document, htext, hread, hget⟩ := h
  simp only [sectionOf, htext, hread, hget]

/-- What a document gives: a section, no section, or an error. -/
theorem sectionOf_cases (content : Text) :
    (∃ t, Contains content t ∧ sectionOf content = .ok t) ∨
      ((∀ t, ¬ Contains content t) ∧ sectionOf content = .ok []) ∨
      ((∀ t, ¬ Contains content t) ∧ ∃ e, Refused content e ∧ sectionOf content = .error e) := by
  by_cases hsection : ∃ t, Contains content t
  · obtain ⟨t, ht⟩ := hsection
    exact .inl ⟨t, ht, sectionOf_of_contains ht⟩
  push Not at hsection
  refine .inr ?_
  cases htext : content.toString? with
  | none => exact .inr ⟨hsection, .undecodable, .undecodable htext, by simp only [sectionOf, htext]⟩
  | some text =>
    cases hread : Toml.read (unifyLineEnds text.toList) with
    | error e =>
      cases e with
      | malformed => exact .inl ⟨hsection, by simp only [sectionOf, htext, hread]⟩
      | tooManyDigits n =>
        exact .inr ⟨hsection, .tooManyDigits n, .endless htext hread (Toml.read_fair _ n hread),
          by simp only [sectionOf, htext, hread]⟩
    | ok document =>
      refine .inl ⟨hsection, ?_⟩
      simp only [sectionOf, htext, hread]
      split
      · rename_i t hget
        exact absurd ⟨text, document, htext, hread, hget⟩ (hsection t)
      · rfl

theorem ofTable_error_iff : ofTable t = .error e ↔
    ∃ x, t.get? Field.tabWidth.key = some (.str x) ∧ Misspelt x ∧ numeral x = .error e := by
  rw [← positiveOr_error_iff (d := ({} : Settings).tabWidth), ofTable, Field.key]
  cases positiveOr ({} : Settings).tabWidth (t.get? "tab_width") with
  | error e' => simp [Except.map]
  | ok width =>
    constructor
    · intro h
      cases h
    · intro h
      cases h

theorem holds_of_ofTable (h : ofTable t = .ok s) (f : Field) : f.Holds (t.get? f.key) (f.value s) :=
  Field.holds_of_read (ofTable_eq_ok_iff.mp h f)

theorem Refused.read_eq (h : Refused content e) : read (some content) = .error e := by
  cases h with
  | undecodable h =>
    simp only [read, sectionOf, h]
    rfl
  | endless htext h =>
    simp only [read, sectionOf, htext, h]
    rfl
  | misspelt ht hs h he =>
    rw [read, sectionOf_of_contains ht]
    exact ofTable_error_iff.mpr ⟨_, hs, h, he⟩

/-- **Reading settings fails for the documents that are refused**, with their errors. -/
theorem read_error_iff {given : Option Text} :
    read given = .error e ↔ ∃ content, given = some content ∧ Refused content e := by
  constructor
  · intro h
    cases given with
    | none =>
      rw [read, ofTable_nil] at h
      cases h
    | some content =>
      refine ⟨content, rfl, ?_⟩
      obtain ⟨t, ht, hsection⟩ | ⟨-, hsection⟩ | ⟨-, e', he', hsection⟩ := sectionOf_cases content
      · rw [read, hsection] at h
        obtain ⟨x, hx, hbad, hnumeral⟩ := ofTable_error_iff.mp h
        exact .misspelt ht hx hbad hnumeral
      · rw [read, hsection] at h
        cases ofTable_nil.symm.trans h
      · rw [read, hsection] at h
        obtain rfl := Except.error.inj h
        exact he'
  · rintro ⟨content, rfl, h⟩
    exact h.read_eq

/-- Settings that were read hold what the entries that count give. -/
theorem read_ok {given : Option Text} (h : read given = .ok s) :
    ∃ t, Entries given t ∧ ∀ f : Field, f.Holds (t.get? f.key) (f.value s) := by
  cases given with
  | none => exact ⟨[], .missing (by simp), holds_of_ofTable h⟩
  | some content =>
    obtain ⟨t, ht, hsection⟩ | ⟨hnone, hsection⟩ | ⟨-, e', -, hsection⟩ := sectionOf_cases content
    · rw [read, hsection] at h
      exact ⟨t, .inSection ht, holds_of_ofTable h⟩
    · rw [read, hsection] at h
      refine ⟨[], .missing fun c hc => ?_, holds_of_ofTable h⟩
      obtain rfl := Option.mem_some_iff.mp hc
      exact hnone
    · rw [read, hsection] at h
      cases h

/-- The file that settings are read from. -/
def source (root : Path) (file : Option Path) : Path := file.getD (root.join fileName)

/-- **Settings are to be had from any value and any document, but for the refused ones.** Of a section only a
misspelt width is refused. Each field holds what the value under its own key gives, and its default where that is
nothing; a file that cannot be read and a document without the section give nothing. -/
theorem settings_of_any_document (v : Value) (d : Disk) (root : Path) (file : Option Path) :
    (∀ s, ofSection v = .ok s → ∀ f : Field, f.Holds (v.entries.get? f.key) (f.value s)) ∧
    (∀ e, ofSection v = .error e ↔
      ∃ x, v.entries.get? Field.tabWidth.key = some (.str x) ∧ Misspelt x ∧ numeral x = .error e) ∧
    (∀ s, d.settingsFor root file = .ok s →
      ∃ t, Entries (d.read (source root file)).toOption t ∧ ∀ f : Field, f.Holds (t.get? f.key) (f.value s)) ∧
    ∀ e, d.settingsFor root file = .error e ↔
      ∃ content, d.read (source root file) = .ok content ∧ Refused content e := by
  refine ⟨fun s h => ?_, fun e => ?_, fun s h => read_ok h, fun e => ?_⟩
  · rw [ofSection_eq] at h
    exact holds_of_ofTable h
  · rw [ofSection_eq]
    exact ofTable_error_iff
  · refine read_error_iff.trans (exists_congr fun content => and_congr_left fun _ => ?_)
    change (d.read (source root file)).toOption = some content ↔ d.read (source root file) = .ok content
    cases d.read (source root file) with
    | error fault => simp [Except.toOption]
    | ok c => simp [Except.toOption]

/-- The sample section gives its extension a dot, and a disk without a document gives defaults. -/
theorem settings_of_sample :
    (∀ f : Field, f.Holds (Sample.section.entries.get? f.key) (f.value Sample.settings)) ∧
    ∃ t, Entries none t ∧ ∀ f : Field, f.Holds (t.get? f.key) (f.value {}) :=
  have h := settings_of_any_document Sample.section {} ⟨true, []⟩ none
  ⟨h.1 Sample.settings ofSection_sample, h.2.2.1 {} ofTable_nil⟩

/-- A superscript passes for a numeral and denotes no number, and a byte that starts no character is no text. -/
theorem refused_superscript : ofSection (.table [("tab_width", .str "²")]) = .error (.badNumeral "²") ∧
    read (some [0xff]) = .error .undecodable := by
  decide

end Settings

end Stopwatch
