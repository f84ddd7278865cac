import Stopwatch.Settings.Normal
import Stopwatch.Toml.Document

/-!
# Settings from a file

The settings stand in the section `instrument` of a document. A document that does not follow the format
counts as empty; one that is not UTF-8 is an error.
-/

namespace Stopwatch.Settings

/-- The name of the file looked for when none is given. -/
def fileName : String := "timecost.toml"

/-- The name of the section. -/
def sectionName : String := "instrument"

/-- Every kind of line end as a line feed. -/
def unifyLineEnds : List Char → List Char
  | '\r' :: '\n' :: cs => '\n' :: unifyLineEnds cs
  | '\r' :: cs => '\n' :: unifyLineEnds cs
  | c :: cs => c :: unifyLineEnds cs
  | [] => []

/-- The section of a document; empty when the document is malformed, has none, or has something else
under that name. -/
def sectionOf (content : Text) : Except SettingsError Table :=
  match content.toString? with
  | none => .error .undecodable
  | some s =>
    match Toml.read (unifyLineEnds s.toList) with
    | .error .malformed => .ok []
    | .error (.tooManyDigits n) => .error (.tooManyDigits n)
    | .ok t =>
      match t.get? sectionName with
      | some (.table inner) => .ok inner
      | _ => .ok []

/-- The settings of a document; without one, the defaults. -/
def read (content : Option Text) : Except SettingsError Settings :=
  match content with
  | none => ofTable []
  | some c => (sectionOf c).bind ofTable

end Stopwatch.Settings
