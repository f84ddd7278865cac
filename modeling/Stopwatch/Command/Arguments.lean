import Stopwatch.Disk.Path

/-!
# The command line

There are two commands. Options may stand before or after the argument of a command, the value of one in
the next word or after `=`; `--` ends the options. There are no short and no shortened options. When an
option is given twice the last one counts.
-/

namespace Stopwatch

/-- What a user asks for. -/
inductive Command where
  /-- Time the functions below a path. -/
  | instrument (path : Path) (settings : Option Path) (json quiet : Bool)
  /-- Bring the support package below a directory up to date. -/
  | support (directory : Path) (settings : Option Path)
  deriving DecidableEq, Repr

/-- Why there is no command. -/
inductive Usage where
  /-- The user asks for help. -/
  | help
  /-- The words make no command. -/
  | wrong
  deriving DecidableEq, Repr

namespace Command

/-- The options that stand for themselves. -/
inductive Flag where
  | json
  | quiet
  | help
  deriving DecidableEq, Repr

/-- The flag of a word. Only runs print reports. -/
def flag? (reports : Bool) (word : String) : Option Flag :=
  if word = "--help" then some .help
  else if reports && word = "--json" then some .json
  else if reports && word = "--quiet" then some .quiet
  else none

/-- The words of a command, taken apart. -/
structure Words where
  arguments : List String := []
  settings : Option String := none
  flags : List Flag := []
  deriving DecidableEq, Repr

/-- Does a word look like an option? A single dash does not. -/
def isOption (word : String) : Bool :=
  match word.toList with
  | '-' :: _ :: _ => true
  | _ => false

/-- The option that takes a value. -/
def settingsOption : String := "--config"

/-- The value in an option with `=`, when the option is the one that takes a value. -/
def inlineValue? (word : String) : Option String :=
  let opening := (settingsOption ++ "=").toList
  if opening.isPrefixOf word.toList then some (String.ofList (word.toList.drop opening.length)) else none

/-- Take the words after a command's name apart. -/
def takeApart (reports : Bool) : Words → List String → Except Usage Words
  | w, [] => .ok w
  | w, word :: rest =>
    if word = "--" then .ok { w with arguments := w.arguments ++ rest }
    else if word = settingsOption then
      match rest with
      | value :: rest => takeApart reports { w with settings := some value } rest
      | [] => .error .wrong
    else if isOption word then
      match flag? reports word, inlineValue? word with
      | some f, _ => takeApart reports { w with flags := w.flags ++ [f] } rest
      | none, some value => takeApart reports { w with settings := some value } rest
      | none, none => .error .wrong
    else takeApart reports { w with arguments := w.arguments ++ [word] } rest

/-- The one argument of a command, unless help is asked for. -/
def argument (w : Words) : Except Usage Path :=
  if w.flags.contains .help then .error .help
  else
    match w.arguments with
    | [path] => .ok (Path.ofString path)
    | _ => .error .wrong

/-- The command of a name and the words after it. -/
def ofName (name : String) (words : List String) : Except Usage Command :=
  if name = "instrument" then
    (takeApart true {} words).bind fun w =>
      (argument w).map fun path =>
        .instrument path (w.settings.map Path.ofString) (w.flags.contains .json) (w.flags.contains .quiet)
  else if name = "ensure-runtime" then
    (takeApart false {} words).bind fun w =>
      (argument w).map fun path => .support path (w.settings.map Path.ofString)
  else .error .wrong

/-- The command of a command line. -/
def parse : List String → Except Usage Command
  | [] => .error .wrong
  | "--" :: name :: words => ofName name words
  | word :: words =>
    if word = "--help" then .error .help
    else if isOption word then .error .wrong
    else ofName word words

end Command

end Stopwatch
