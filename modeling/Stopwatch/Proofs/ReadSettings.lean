import Mathlib
import Stopwatch.Proofs.Numerals

/-!
# Settings field by field

Each field of the settings is read from the value under its own key, whatever else a section holds
(`Settings.ofTable_eq_ok_iff`). `Field.Gives` says which values can be used for a field and what they give;
other values leave the default, and of them only a misspelt width is an error (`Field.read_error_iff`,
`Field.holds_of_read`).

* `Settings.ofSection_normal`: what a value gives is given by itself (`Field.Gives.again`), so settings that were
  read are normal, and they are read again from the section that holds them.
-/

namespace Stopwatch

open Text

/-- The entries of a section; a value that is no table has none. -/
def Value.entries : Value → Table
  | .table t => t
  | _ => []

namespace Settings

/-! ## Extensions -/

theorem withDot_of_startsWith {s : String} (h : s.startsWith "." = true) : withDot s = s := if_pos h

theorem startsWith_withDot (s : String) : (withDot s).startsWith "." = true := by
  unfold withDot
  split_ifs with h
  · exact h
  · rw [String.startsWith_string_iff, String.toList_append]
    exact List.prefix_append _ _

/-- What starts with a dot has text in it. -/
theorem hasText_of_startsWith {s : String} (h : s.startsWith "." = true) : HasText s := by
  obtain ⟨rest, hrest⟩ := String.startsWith_string_iff.mp h
  exact ⟨'.', hrest ▸ List.mem_append_left _ List.mem_cons_self, rfl⟩

theorem startsWith_default : ({} : Settings).sourceExtension.startsWith "." = true :=
  String.startsWith_string_iff.mpr (by decide)

/-! ## Fields -/

/-- The fields of the settings. -/
inductive Field where
  | skipPrefix
  | startIdentifier
  | reportTemplate
  | sourceExtension
  | reservedFilename
  | supportDir
  | useTabs
  | tabWidth
  deriving DecidableEq

namespace Field

/-- All fields. -/
def all : List Field :=
  [skipPrefix, startIdentifier, reportTemplate, sourceExtension, reservedFilename, supportDir, useTabs, tabWidth]

/-- The key of a field. -/
def key : Field → String
  | skipPrefix => "skip_prefix"
  | startIdentifier => "start_identifier"
  | reportTemplate => "report_template"
  | sourceExtension => "source_extension"
  | reservedFilename => "reserved_filename"
  | supportDir => "support_dir"
  | useTabs => "use_tabs"
  | tabWidth => "tab_width"

/-- What settings hold in a field, as a value of a document. -/
def value (s : Settings) : Field → Value
  | skipPrefix => .str s.skipPrefix
  | startIdentifier => .str s.startIdentifier
  | reportTemplate => .str s.reportTemplate
  | sourceExtension => .str s.sourceExtension
  | reservedFilename => .str s.reservedFilename
  | supportDir => .str s.supportDir
  | useTabs => .bool s.useTabs
  | tabWidth => .int s.tabWidth

/-- The value of a field if nothing is said. -/
def default (f : Field) : Value := f.value {}

/-- What a field gets from the value under its key. -/
def read (v : Option Value) : Field → Except SettingsError Value
  | skipPrefix => .ok (.str (textOr ({} : Settings).skipPrefix v))
  | startIdentifier => .ok (.str (textOr ({} : Settings).startIdentifier v))
  | reportTemplate => .ok (.str (textOr ({} : Settings).reportTemplate v))
  | sourceExtension => .ok (.str (withDot (textOr ({} : Settings).sourceExtension v)))
  | reservedFilename => .ok (.str (textOr ({} : Settings).reservedFilename v))
  | supportDir => .ok (.str (textOr ({} : Settings).supportDir v))
  | useTabs => .ok (.bool (boolOr ({} : Settings).useTabs v))
  | tabWidth => (positiveOr ({} : Settings).tabWidth v).map .int

end Field

/-- Settings are what they hold in their fields. -/
theorem ext_of_value {s s' : Settings} (h : ∀ f : Field, f.value s = f.value s') : s = s' := by
  cases s
  cases s'
  simp only [Settings.mk.injEq]
  exact ⟨Value.str.inj (h .skipPrefix), Value.str.inj (h .startIdentifier), Value.str.inj (h .reportTemplate),
    Value.str.inj (h .sourceExtension), Value.str.inj (h .reservedFilename), Value.str.inj (h .supportDir),
    Value.bool.inj (h .useTabs), Value.int.inj (h .tabWidth)⟩

/-- Where the width of a tab can be read, each field is what it gets from the value under its key. -/
theorem exists_ofTable_of_width {t : Table} {width : Int}
    (h : positiveOr ({} : Settings).tabWidth (t.get? "tab_width") = .ok width) :
    ∃ s, ofTable t = .ok s ∧ ∀ f : Field, f.read (t.get? f.key) = .ok (f.value s) := by
  refine ⟨_, by rw [ofTable, h]; rfl, fun f => ?_⟩
  cases f with
  | tabWidth => rw [Field.read, Field.key, h]; rfl
  | _ => rfl

/-- **A section is read field by field**, each from the value under its own key. -/
theorem ofTable_eq_ok_iff {t : Table} {s : Settings} :
    ofTable t = .ok s ↔ ∀ f : Field, f.read (t.get? f.key) = .ok (f.value s) := by
  constructor
  · intro h
    cases hwidth : positiveOr ({} : Settings).tabWidth (t.get? "tab_width") with
    | error e =>
      rw [ofTable, hwidth] at h
      cases h
    | ok width =>
      obtain ⟨s', hs', hread⟩ := exists_ofTable_of_width hwidth
      obtain rfl := Except.ok.inj (hs'.symm.trans h)
      exact hread
  · intro h
    cases hwidth : positiveOr ({} : Settings).tabWidth (t.get? "tab_width") with
    | error e =>
      have htab := h .tabWidth
      rw [Field.read, Field.key, hwidth] at htab
      cases htab
    | ok width =>
      obtain ⟨s', hs', hread⟩ := exists_ofTable_of_width hwidth
      rw [hs', ext_of_value fun f => Except.ok.inj ((hread f).symm.trans (h f))]

theorem ofTable_nil : ofTable [] = .ok {} :=
  ofTable_eq_ok_iff.mpr fun f => by
    cases f with
    | sourceExtension => exact congrArg (fun x => Except.ok (Value.str x)) (withDot_of_startsWith startsWith_default)
    | _ => rfl

/-- What is no table counts as an empty one. -/
theorem ofSection_eq (v : Value) : ofSection v = ofTable v.entries := by
  cases v with
  | table t => rfl
  | _ => exact ofTable_nil.symm

/-! ## What a value gives -/

theorem textOr_of_hasText {s : String} (h : HasText s) (d : String) : textOr d (some (.str s)) = s := by
  rw [textOr, if_neg]
  simpa using strip_ne_nil_iff.mpr h

theorem textOr_of_blank {s : String} (h : ¬ HasText s) (d : String) : textOr d (some (.str s)) = d := by
  rw [textOr, if_pos]
  rw [← strip_ne_nil_iff, not_not] at h
  simp [h]

/-- The string stands for yes. -/
def isYes (s : String) : Bool := yesWords.contains (String.ofList ((strip s).map lowerAscii))

/-- Which values can be used for a field, and what they give. -/
inductive Field.Gives : Field → Value → Value → Prop
  /-- A string with text in it, for the fields that hold one as it is. -/
  | text {f : Field} {s : String} (hf : f ≠ .sourceExtension ∧ f ≠ .useTabs ∧ f ≠ .tabWidth) (h : HasText s) :
      Gives f (.str s) (.str s)
  /-- An extension gets its dot. -/
  | extension {s : String} (h : HasText s) : Gives .sourceExtension (.str s) (.str (withDot s))
  | truth (b : Bool) : Gives .useTabs (.bool b) (.bool b)
  | number (n : Int) : Gives .useTabs (.int n) (.bool (n != 0))
  | word (s : String) : Gives .useTabs (.str s) (.bool (isYes s))
  | width {n : Int} (h : 0 < n) : Gives .tabWidth (.int n) (.int n)
  | numeral {s : String} {n : Nat} (h : Denotes s n) (hn : 0 < n) : Gives .tabWidth (.str s) (.int n)

/-- A string that passes for a numeral and denotes no number. -/
def Misspelt (s : String) : Prop := Passes s ∧ ∀ n, ¬ Denotes s n

theorem misspelt_of_error {s : String} {e : SettingsError} (hs : Passes s) (h : numeral s = .error e) : Misspelt s := by
  refine ⟨hs, fun n hn => ?_⟩
  rw [numeral_eq_ok_iff.mpr hn] at h
  cases h

theorem positiveOr_of_denotes {s : String} {n : Nat} (h : Denotes s n) (d : Int) :
    positiveOr d (some (.str s)) = .ok (if 0 < n then (n : Int) else d) := by
  rw [positiveOr, if_pos (looksNumeric_iff.mpr h.passes), numeral_eq_ok_iff.mpr h]
  simp [Except.map, bind, Except.bind, pure, Except.pure]

theorem positiveOr_of_not_passes {s : String} (h : ¬ Passes s) (d : Int) :
    positiveOr d (some (.str s)) = .ok d := by
  rw [positiveOr, if_neg fun hs => h (looksNumeric_iff.mp hs)]

/-- A width cannot be read where it is misspelt, and nowhere else. -/
theorem positiveOr_error_iff {d : Int} {given : Option Value} {e : SettingsError} : positiveOr d given = .error e ↔
    ∃ s, given = some (.str s) ∧ Misspelt s ∧ numeral s = .error e := by
  constructor
  · intro h
    unfold positiveOr at h
    split at h
    · cases h
    · rename_i s
      split_ifs at h with hs
      cases hnumeral : numeral s with
      | error e' =>
        rw [hnumeral] at h
        obtain rfl := Except.error.inj h
        exact ⟨s, rfl, misspelt_of_error (looksNumeric_iff.mp hs) hnumeral, hnumeral⟩
      | ok n =>
        rw [hnumeral] at h
        cases h
    · cases h
  · rintro ⟨s, rfl, hs, hnumeral⟩
    rw [positiveOr, if_pos (looksNumeric_iff.mpr hs.1), hnumeral]
    rfl

namespace Field

variable {f : Field} {v w : Value} {given : Option Value}

/-- What a field holds after reading: what the value under its key gives, and the default where there is none or it
gives nothing. -/
inductive Holds (f : Field) : Option Value → Value → Prop
  | given {v w : Value} (h : f.Gives v w) : Holds f (some v) w
  | default {given : Option Value} (h : ∀ v ∈ given, ∀ w, ¬ f.Gives v w) : Holds f given f.default

theorem read_none (f : Field) : f.read none = .ok f.default := by
  cases f with
  | sourceExtension => exact congrArg (fun x => Except.ok (Value.str x)) (withDot_of_startsWith startsWith_default)
  | _ => rfl

theorem read_of_gives (h : f.Gives v w) : f.read (some v) = .ok w := by
  cases h with
  | @text f s hf h =>
    cases f with
    | sourceExtension => exact absurd rfl hf.1
    | useTabs => exact absurd rfl hf.2.1
    | tabWidth => exact absurd rfl hf.2.2
    | _ => exact congrArg (fun x => Except.ok (Value.str x)) (textOr_of_hasText h _)
  | extension h => exact congrArg (fun x => Except.ok (Value.str (withDot x))) (textOr_of_hasText h _)
  | truth => rfl
  | number => rfl
  | word => rfl
  | width h =>
    rw [read, positiveOr, if_pos h]
    rfl
  | numeral h hn =>
    rw [read, positiveOr_of_denotes h, if_pos hn]
    rfl

/-- A width that gives nothing leaves the default, unless it is misspelt. -/
theorem read_width (h : ∀ w, ¬ Gives .tabWidth v w) (hv : ∀ s, v = .str s → ¬ Misspelt s) :
    read (some v) .tabWidth = .ok (default .tabWidth) := by
  cases v with
  | int n =>
    have hn : ¬ 0 < n := fun hn => h _ (.width hn)
    rw [read, positiveOr, if_neg hn]
    rfl
  | str s =>
    by_cases hs : Passes s
    · obtain ⟨n, hn⟩ : ∃ n, Denotes s n := by
        by_contra! hnone
        exact hv s rfl ⟨hs, hnone⟩
      have hzero : ¬ 0 < n := fun hpos => h _ (.numeral hn hpos)
      rw [read, positiveOr_of_denotes hn, if_neg hzero]
      rfl
    · rw [read, positiveOr_of_not_passes hs]
      rfl
  | _ => rfl

/-- A value that gives nothing leaves the default, unless it is a misspelt width. -/
theorem read_of_not_gives (h : ∀ w, ¬ f.Gives v w) (hv : f = .tabWidth → ∀ s, v = .str s → ¬ Misspelt s) :
    f.read (some v) = .ok f.default := by
  cases f with
  | tabWidth => exact read_width h (hv rfl)
  | useTabs =>
    cases v with
    | bool b => exact absurd (.truth b) (h _)
    | int n => exact absurd (.number n) (h _)
    | str s => exact absurd (.word s) (h _)
    | _ => rfl
  | sourceExtension =>
    cases v with
    | str s =>
      have hs : ¬ HasText s := fun hs => h _ (.extension hs)
      rw [read, textOr_of_blank hs, withDot_of_startsWith startsWith_default]
      rfl
    | _ => exact read_none .sourceExtension
  | _ =>
    cases v with
    | str s =>
      have hs : ¬ HasText s := fun hs => h _ (.text (by simp) hs)
      rw [read, textOr_of_blank hs]
      rfl
    | _ => rfl

/-- **Reading a field** fails for a misspelt width only. -/
theorem read_error_iff {e : SettingsError} : f.read given = .error e ↔
    f = .tabWidth ∧ ∃ s, given = some (.str s) ∧ Misspelt s ∧ Settings.numeral s = .error e := by
  constructor
  · intro h
    cases f with
    | tabWidth =>
      unfold read at h
      cases hwidth : positiveOr ({} : Settings).tabWidth given with
      | error e' =>
        rw [hwidth] at h
        obtain rfl := Except.error.inj h
        exact ⟨rfl, positiveOr_error_iff.mp hwidth⟩
      | ok n =>
        rw [hwidth] at h
        cases h
    | _ => cases h
  · rintro ⟨rfl, hs⟩
    rw [read, positiveOr_error_iff.mpr hs]
    rfl

/-- What is read is what the field is to hold. -/
theorem holds_of_read (h : f.read given = .ok w) : f.Holds given w := by
  cases given with
  | none =>
    rw [read_none] at h
    obtain rfl := Except.ok.inj h
    exact .default (by simp)
  | some v =>
    by_cases hgives : ∃ w, f.Gives v w
    · obtain ⟨w', hw'⟩ := hgives
      obtain rfl := Except.ok.inj ((read_of_gives hw').symm.trans h)
      exact .given hw'
    · push Not at hgives
      have hright : f = .tabWidth → ∀ s, v = .str s → ¬ Misspelt s := by
        rintro rfl s rfl hs
        cases hnumeral : Settings.numeral s with
        | ok n => exact hs.2 n (numeral_eq_ok_iff.mp hnumeral)
        | error e =>
          rw [read_error_iff.mpr ⟨rfl, s, rfl, hs, hnumeral⟩] at h
          cases h
      obtain rfl := Except.ok.inj ((read_of_not_gives hgives hright).symm.trans h)
      exact .default fun v' hv' => Option.mem_some_iff.mp hv' ▸ hgives

/-! ## Normal values -/

/-- What a value gives is given by itself. -/
theorem Gives.again (h : f.Gives v w) : f.Gives w w := by
  cases h with
  | text hf h => exact .text hf h
  | @extension s h =>
    have hdot := startsWith_withDot s
    have hagain := Gives.extension (hasText_of_startsWith hdot)
    rwa [withDot_of_startsWith hdot] at hagain
  | truth b => exact .truth b
  | number n => exact .truth _
  | word s => exact .truth _
  | width h => exact .width h
  | numeral h hn => exact .width (Int.natCast_pos.mpr hn)

/-- So is a default. -/
theorem gives_default (f : Field) : f.Gives f.default f.default := by
  have hext := Gives.extension (hasText_of_startsWith startsWith_default)
  rw [withDot_of_startsWith startsWith_default] at hext
  cases f with
  | sourceExtension => exact hext
  | useTabs => exact .truth _
  | tabWidth => exact .width (by decide)
  | _ => exact .text (by simp) ⟨_, List.mem_cons_self, rfl⟩

theorem Holds.again (h : f.Holds given w) : f.Gives w w := by
  cases h with
  | given h => exact h.again
  | default => exact f.gives_default

theorem Gives.hasText {s : String} (h : f.Gives v (.str s)) : HasText s := by
  cases h with
  | text _ h => exact h
  | extension h => exact hasText_of_startsWith (startsWith_withDot _)

theorem startsWith_of_gives {s : String} (h : Gives .sourceExtension v (.str s)) : s.startsWith "." = true := by
  cases h with
  | text hf => exact absurd rfl hf.1
  | extension => exact startsWith_withDot _

end Field

/-! ## Sections -/

/-- Settings as the section that holds them. -/
def toTable (s : Settings) : Table := Field.all.map fun f => (f.key, f.value s)

theorem get?_toTable (s : Settings) (f : Field) : s.toTable.get? f.key = some (f.value s) := by
  cases f <;> rfl

/-- Settings are normal: each text holds something besides white space, the extension has its dot, and there is some
width to a level. -/
structure Normal (s : Settings) : Prop where
  text : ∀ (f : Field) (x : String), f.value s = .str x → HasText x
  dotted : s.sourceExtension.startsWith "." = true
  width : 0 < s.tabWidth
  indent : s.indent ≠ []

theorem normal_of_gives {s : Settings} (h : ∀ f : Field, f.Gives (f.value s) (f.value s)) : s.Normal := by
  have hwidth : 0 < s.tabWidth := by
    cases h .tabWidth with
    | width h => exact h
  refine ⟨fun f x hx => ?_, ?_, hwidth, ?_⟩
  · have hf := h f
    rw [hx] at hf
    exact hf.hasText
  · exact Field.startsWith_of_gives (h .sourceExtension)
  · unfold Settings.indent
    split_ifs
    · simp
    · rw [Ne, List.replicate_eq_nil_iff]
      omega

/-- **Settings that were read are normal**, each field comes from the value under its own key, and the settings
are read again as they are from the section that holds them. -/
theorem ofSection_normal {v : Value} {s : Settings} (h : ofSection v = .ok s) :
    s.Normal ∧
      (∀ (v' : Value) (s' : Settings), ofSection v' = .ok s' →
        ∀ f : Field, v.entries.get? f.key = v'.entries.get? f.key → f.value s = f.value s') ∧
      ofSection (.table s.toTable) = .ok s := by
  rw [ofSection_eq, ofTable_eq_ok_iff] at h
  have hnormal (f : Field) : f.Gives (f.value s) (f.value s) := (Field.holds_of_read (h f)).again
  refine ⟨normal_of_gives hnormal, fun v' s' h' f hsame => ?_, ?_⟩
  · rw [ofSection_eq, ofTable_eq_ok_iff] at h'
    have hread := (h f).symm.trans (hsame ▸ h' f)
    exact Except.ok.inj hread
  · rw [ofSection_eq, Value.entries, ofTable_eq_ok_iff]
    intro f
    rw [get?_toTable]
    exact Field.read_of_gives (hnormal f)

/-- A section with an extension that lacks its dot, a width in Arabic-Indic digits and a word that is no yes. -/
def Sample.section : Value :=
  .table [("source_extension", .str "go"), ("tab_width", .str " ٨\n"), ("use_tabs", .str "No")]

/-- What that section sets. -/
def Sample.settings : Settings := { sourceExtension := ".go", useTabs := false, tabWidth := 8 }

theorem ofSection_sample : ofSection Sample.section = .ok Sample.settings := by
  have hdot : withDot "go" = ".go" := if_neg (by rw [String.startsWith_string_iff]; decide)
  rw [ofSection_eq, ofTable_eq_ok_iff]
  intro f
  cases f with
  | sourceExtension => exact congrArg (fun x => Except.ok (Value.str x)) hdot
  | _ => rfl

/-- The sample's settings are normal and are read again. -/
theorem ofSection_normal_sample : ofSection Sample.section = .ok Sample.settings ∧ Sample.settings.Normal ∧
    ofSection (.table Sample.settings.toTable) = .ok Sample.settings :=
  have h := ofSection_normal ofSection_sample
  ⟨ofSection_sample, h.1, h.2.2⟩

end Settings

end Stopwatch
