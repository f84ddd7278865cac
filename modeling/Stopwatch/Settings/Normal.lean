import Stopwatch.Settings
import Stopwatch.Text.Blank
import Stopwatch.Text.Digit
import Stopwatch.Text.Printable
import Stopwatch.Toml.Value

/-!
# Settings from a document

`Settings.ofSection` takes the values of a section of a document. A value that cannot be used leaves the
default of its field in place. The width of a tab may be given as a string of digits of any script; one
that only looks like a numeral is refused.
-/

namespace Stopwatch

/-- Why settings cannot be taken from a document. -/
inductive SettingsError where
  /-- A string passed for a numeral and is none. -/
  | badNumeral (given : String)
  /-- A numeral has so many digits, more than are read. -/
  | tooManyDigits (digits : Nat)
  /-- The document is no text. -/
  | undecodable
  deriving DecidableEq, Repr

namespace SettingsError

/-- The wording of an error; there is none for a document that is no text. -/
def message? : SettingsError → Option String
  | badNumeral given =>
    some ("invalid literal for int() with base 10: " ++
      String.ofList ((Text.quoted given).toList.take 200))
  | tooManyDigits n =>
    some ("Exceeds the limit (4300 digits) for integer string conversion: value has " ++ toString n ++
      " digits; use sys.set_int_max_str_digits() to increase the limit")
  | undecodable => none

end SettingsError

namespace Settings

/-- A string with something in it besides white space, as it is. -/
def textOr (default : String) : Option Value → String
  | some (.str s) => if (Text.strip s).isEmpty then default else s
  | _ => default

/-- An ASCII letter in lower case; the words that are looked for have no others. -/
def lowerAscii (c : Char) : Char := if 'A' ≤ c && c ≤ 'Z' then Char.ofNat (c.toNat + 32) else c

/-- The words that stand for yes. -/
def yesWords : List String := ["1", "true", "yes", "on"]

/-- A truth value; numbers other than zero and the words for yes are true. -/
def boolOr (default : Bool) : Option Value → Bool
  | some (.bool b) => b
  | some (.int n) => n != 0
  | some (.str s) => yesWords.contains (String.ofList ((Text.strip s).map lowerAscii))
  | _ => default

/-! ## Numerals -/

/-- A character of a numeral as it is read: other white space than ASCII counts as a space and a decimal
digit of any script as its value. Anything else outside ASCII fits nowhere. -/
inductive NumeralChar where
  | space
  | digit (value : Nat)
  | other
  deriving DecidableEq, Repr

/-- How a character of a numeral is read. -/
def NumeralChar.of (c : Char) : NumeralChar :=
  match Text.digitValue? c.toNat with
  | some d => .digit d
  | none =>
    if c.toNat < 128 then
      if c == ' ' || (9 ≤ c.toNat && c.toNat ≤ 13) then .space else .other
    else if Text.isBlankChar c then .space
    else .other

/-- The digits a list of characters starts with. -/
def leadingDigits : List NumeralChar → List Nat
  | .digit d :: cs => d :: leadingDigits cs
  | _ => []

/-- The number a string denotes: digits between white space. -/
def numeral (s : String) : Except SettingsError Nat :=
  let cs := (s.toList.map NumeralChar.of).dropWhile (· == .space)
  let ds := leadingDigits cs
  if 4300 < ds.length then .error (.tooManyDigits ds.length)
  else if ds.isEmpty || (cs.drop ds.length).any (· != .space) then .error (.badNumeral s)
  else .ok (ds.foldl (fun n d => n * 10 + d) 0)

/-- Whether a string passes for a numeral: digits in the wide sense between white space. -/
def looksNumeric (s : String) : Bool :=
  let cs := Text.strip s
  !cs.isEmpty && cs.all fun c => Text.isDigitLike c.toNat

/-- A positive number, or a string that denotes one. -/
def positiveOr (default : Int) : Option Value → Except SettingsError Int
  | some (.int n) => .ok (if 0 < n then n else default)
  | some (.str s) =>
    if looksNumeric s then (numeral s).map fun n => if 0 < n then (n : Int) else default
    else .ok default
  | _ => .ok default

/-- A file name extension starts with a dot. -/
def withDot (s : String) : String := if s.startsWith "." then s else "." ++ s

/-- The settings of a section. -/
def ofTable (t : Table) : Except SettingsError Settings :=
  let d : Settings := {}
  (positiveOr d.tabWidth (t.get? "tab_width")).map fun tabWidth =>
    { skipPrefix := textOr d.skipPrefix (t.get? "skip_prefix")
      startIdentifier := textOr d.startIdentifier (t.get? "start_identifier")
      reportTemplate := textOr d.reportTemplate (t.get? "report_template")
      sourceExtension := withDot (textOr d.sourceExtension (t.get? "source_extension"))
      reservedFilename := textOr d.reservedFilename (t.get? "reserved_filename")
      supportDir := textOr d.supportDir (t.get? "support_dir")
      useTabs := boolOr d.useTabs (t.get? "use_tabs")
      tabWidth := tabWidth }

/-- The settings of any value; one that is no table gives the defaults. -/
def ofSection : Value → Except SettingsError Settings
  | .table t => ofTable t
  | _ => .ok {}

end Settings

end Stopwatch
