import Mathlib
import Stopwatch.Grammar.Token
import Stopwatch.Proofs.Pieces
import Stopwatch.Proofs.StartVariables
import Stopwatch.Settings.Normal

/-!
# Start variables and reserved words

Some words are no good as start variables: the keywords of the language and the blank identifier name no
variable, the pair itself needs the packages `time` and `fmt`, and `nil`, `true`, `false` and `iota` mean
something to the program that is timed. None of them ends with a digit, so the allocator never comes to one
by counting.

* `SourceFile.Usable`: what is asked of a start variable.
* `SourceFile.transform_usable`: the start variables of a transformation are usable, unless the settings
  propose a reserved word.
* `SourceFile.transform_takes_proposal`: then the proposal is taken as it is, and the parameters of a function
  are not looked at.
-/

namespace Stopwatch

/-- The predeclared values that are tokens of a kind of their own. -/
def predeclared : List String := ["nil", "true", "false", "iota"]

/-- The words that a start variable should not be. -/
def reservedWords : List Text := ("_" :: keywords ++ predeclared).map utf8 ++ requiredImports

/-! ## Counting does not lead to a reserved word -/

theorem isDigit_getLast_of_reserved : ∀ w ∈ reservedWords, (w.getLast?.any Text.isDigit) = false := by
  decide +kernel

namespace Names

/-- A numbered name ends with a digit. -/
theorem isDigit_getLast_candidate (base : Text) (k : Nat) :
    ((candidate base (k + 1)).getLast?.any Text.isDigit) = true := by
  have hne : Text.decimal (k + 2) ≠ [] := by
    intro hnil
    have hzero : Text.decimal (k + 2) = utf8 "" := hnil
    exact absurd (utf8_injective hzero) Nat.repr_ne_empty
  rw [candidate, List.getLast?_append_of_ne_nil _ hne, List.getLast?_eq_some_getLast hne,
    Option.any_some]
  exact Text.isDigit_of_mem_decimal (List.getLast_mem hne)

/-- A candidate that is a reserved word is the base itself. -/
theorem candidate_eq_of_reserved {base : Text} {k : Nat} (h : candidate base k ∈ reservedWords) :
    candidate base k = base := by
  cases k with
  | zero => rfl
  | succ k =>
    have hdigit := isDigit_getLast_candidate base k
    rw [isDigit_getLast_of_reserved _ h] at hdigit
    exact absurd hdigit (by simp)

end Names

/-! ## Start variables -/

theorem qualifiedName_reportOn {functions : List Function} {identifiers : List Text}
    (h : identifiers.length = functions.length) :
    (reportOn functions identifiers).map TimedFunction.qualifiedName =
      functions.map fun c => c.head.qualifiedName := by
  induction functions generalizing identifiers with
  | nil => rw [List.length_eq_zero_iff.mp h]; rfl
  | cons c functions ih =>
    cases identifiers with
    | nil => exact absurd h (by simp)
    | cons id identifiers =>
      rw [reportOn, List.zipWith_cons_cons, List.map_cons, List.map_cons]
      exact congrArg _ (ih (by simpa using h))

namespace SourceFile

/-- What is asked of the start variable `name` in a file with the concrete tree `root`: it is an identifier,
no token of the tree spells it as a name, and it is a reserved word only if it is the name proposed. -/
structure Usable (text : Text) (root : Cst) (proposed name : Text) : Prop where
  isIdentifier : name.IsIdentifier
  unspelled : ∀ i : CstInfo, (Cst.node i []).Within root → i.kind ∈ identifierKinds → i.start ≠ i.stop →
    (Source.ofText text).slice i.start i.stop ≠ name
  reserved : name ∈ reservedWords → name = Names.normalize proposed

theorem usable_of_mem_startVariables {text : Text} {root : Cst} {f : SourceFile}
    (hload : ofCst text root = .ok f) (s : Settings) {n : Nat} {name : Text}
    (h : name ∈ f.startVariables s n) : Usable text root (utf8 s.startIdentifier) name := by
  have hrun := Names.allocateAll_freshRun f.identifiers (List.replicate n (utf8 s.startIdentifier))
  refine ⟨hrun.isIdentifier name h, fun i hi hkind hne heq => ?_, fun hreserved => ?_⟩
  · refine hrun.notMem name h ?_
    rw [← heq, Load.ofCst_eq_build hload]
    exact mem_identifiers_build _ hi hkind hne
  · obtain ⟨i, hi⟩ := List.getElem?_of_mem h
    have hlt : i < n := by
      rw [← length_startVariables f s n]
      exact (List.getElem?_eq_some_iff.mp hi).1
    obtain ⟨name', hname', k, hk, -⟩ := hrun.isFirstFree i (utf8 s.startIdentifier) (by simp [hlt])
    obtain rfl : name = name' := Option.some.inj (hi.symm.trans hname')
    rw [hk] at hreserved ⊢
    exact Names.candidate_eq_of_reserved hreserved

/-- **The start variables of a transformation are usable**: every function with a body and a name that is not
skipped gets one, whatever its receiver, parameters and results are, that is spelled nowhere in the file, and
that is a reserved word only if the settings propose it. -/
theorem transform_usable (text : Text) (root : Cst) (f : SourceFile) (s : Settings)
    (hload : ofCst text root = .ok f) :
    ∃ (tree : SourceFile) (functions : List TimedFunction) (added : List Text),
      (f.transform s = (tree.render s.indent).map fun out => ⟨tree, out, functions, added⟩) ∧
      functions.map TimedFunction.qualifiedName =
        (f.toNode.candidates (utf8 s.skipPrefix)).map (fun c => c.head.qualifiedName) ∧
      (tree.toNode.candidates (utf8 s.skipPrefix)).map Function.startVariable? =
        functions.map (fun t => some t.identifier) ∧
      ∀ t ∈ functions, Usable text root (utf8 s.startIdentifier) t.identifier := by
  have htiming := f.timing_instrument s
  set timed := f.instrument s.plan ⟨f.identifiers⟩
  obtain ⟨hreport, hlen⟩ := htiming.report
  have hidentifiers := (congrArg (List.map TimedFunction.identifier) hreport).trans
    (identifier_reportOn hlen)
  refine ⟨(timed.1.ensureImports requiredImports).2, timed.2.timed, _, rfl, ?_, ?_, fun t ht => ?_⟩
  · rw [hreport]
    exact qualifiedName_reportOn hlen
  · rw [startVariable?_of_forall₂ hlen htiming.candidates, ← hidentifiers, List.map_map]
    rfl
  · refine usable_of_mem_startVariables hload s (n := (f.toNode.candidates (utf8 s.skipPrefix)).length) ?_
    rw [← hidentifiers]
    exact List.mem_map_of_mem ht

end SourceFile

/-! ## A function in the way -/

theorem eq_ok_of_toOption {ε α : Type} {x : Except ε α} {a : α} (h : x.toOption = some a) :
    x = .ok a := by
  cases x with
  | error e => exact absurd h (by simp [Except.toOption])
  | ok b => exact congrArg _ (Option.some.inj h)

namespace Sample

/-- A function with a parameter called like a package, which returns a predeclared value. -/
def shadowingText : Text := utf8 "package p\nfunc f(time int) any \x7b\nreturn nil\n\x7d\n"

def shadowingSource : Source := .ofText shadowingText

def shadowingParameters : Cst :=
  branch "parameter_list" 16 26 (some "parameters")
    [token "(" 16 17,
      branch "parameter_declaration" 17 25 none
        [named "identifier" 17 21 (some "name"), named "type_identifier" 22 25 (some "type")],
      token ")" 25 26]

def shadowingBody : Cst :=
  branch "block" 31 45 (some "body")
    [token "\x7b" 31 32,
      branch "statement_list" 33 43 none
        [branch "return_statement" 33 43 none [token "return" 33 39, named "nil" 40 43 none]],
      token "\x7d" 44 45]

def shadowingFunction : Cst :=
  branch "function_declaration" 10 45 none
    [token "func" 10 14, named "identifier" 15 16 (some "name"), shadowingParameters,
      named "type_identifier" 27 30 (some "result"), shadowingBody]

def shadowingTree : Cst :=
  branch "source_file" 0 45 none [packageClause, token "\n" 9 10, shadowingFunction]

def shadowingStmt : Item :=
  ⟨"statement_list", branch "return_statement" 33 43 none [token "return" 33 39, named "nil" 40 43 none]⟩

theorem decls_shadowing (source : Source) : (SourceFile.build source shadowingTree).decls =
    [Load.decl source ⟨"source_file", packageClause⟩,
      .funcDecl (Load.markOf source shadowingFunction)
        { name := source.slice 15 16
          signature := .ofNodes source "function_declaration" (Load.headNodes shadowingFunction) }
        (some ⟨Load.markOf source shadowingBody, [Load.stmt source shadowingStmt]⟩)] := by
  have hbody : Load.body source shadowingBody =
      ⟨Load.markOf source shadowingBody, [Load.stmt source shadowingStmt]⟩ := by
    rw [Load.body_eq, Load.sortedBlocks_eq_map source (by decide) (by decide)]
    rfl
  have hfunction : Load.decl source ⟨"source_file", shadowingFunction⟩ =
      Load.funcDecl source shadowingFunction := rfl
  have hitems : Load.topItems shadowingTree =
    [⟨"source_file", packageClause⟩, ⟨"source_file", shadowingFunction⟩] := rfl
  rw [Load.decls_build, Load.sortedBlocks_eq_map source (by decide) (by decide), hitems]
  change [_, Load.decl source ⟨"source_file", shadowingFunction⟩] = _
  rw [hfunction, Load.funcDecl_eq]
  change [_, Node.funcDecl _ _ (some (Load.body source shadowingBody))] = _
  rw [hbody]
  rfl

/-- The file as it is loaded. -/
def shadowingFile : SourceFile where
  mark := Load.markOf shadowingSource shadowingTree
  decls :=
    [Load.decl shadowingSource ⟨"source_file", packageClause⟩,
      .funcDecl (Load.markOf shadowingSource shadowingFunction)
        { name := shadowingSource.slice 15 16
          signature := .ofNodes shadowingSource "function_declaration"
            (Load.headNodes shadowingFunction) }
        (some ⟨Load.markOf shadowingSource shadowingBody, [Load.stmt shadowingSource shadowingStmt]⟩)]
  identifiers := (SourceFile.build shadowingSource shadowingTree).identifiers

theorem ofCst_shadowing : SourceFile.ofCst shadowingText shadowingTree = .ok shadowingFile := by
  rw [Load.ofCst_eq_ok (by decide) ⟨packageClause, List.mem_cons_self, rfl⟩, shadowingFile,
    ← decls_shadowing]
  rfl

theorem candidates_shadowing : (shadowingFile.toNode.candidates (utf8 (Settings.skipPrefix {}))).map
    (fun c => c.head.qualifiedName) = [utf8 "f"] := by
  decide +kernel

theorem identifiers_shadowing : ∀ w ∈ ["_", "func", "fmt", "nil"],
    ((shadowingFile.transform { startIdentifier := w }).toOption.map fun t =>
      t.functions.map TimedFunction.identifier) = some [utf8 w] := by
  decide +kernel

theorem settings_shadowing : ∀ w ∈ ["_", "func", "fmt", "nil"],
    (Settings.ofTable [("start_identifier", .str w)]).toOption = some { startIdentifier := w } := by
  decide +kernel

end Sample

open Sample in
theorem SourceFile.transform_usable_sample :
    ∃ (tree : SourceFile) (functions : List TimedFunction) (added : List Text),
      (shadowingFile.transform {} =
        (tree.render (Settings.indent {})).map fun out => ⟨tree, out, functions, added⟩) ∧
      functions.map TimedFunction.qualifiedName = [utf8 "f"] ∧
      ∀ t ∈ functions, t.identifier ∉ reservedWords := by
  obtain ⟨tree, functions, added, htransform, hnames, -, husable⟩ :=
    transform_usable shadowingText shadowingTree shadowingFile {} ofCst_shadowing
  refine ⟨tree, functions, added, htransform, hnames.trans candidates_shadowing, fun t ht hmem => ?_⟩
  rw [(husable t ht).reserved hmem] at hmem
  exact absurd hmem (by decide +kernel)

open Sample in
/-- A proposal that is no name for a variable, or that hides a package or a value, is taken as it is, and a
function is timed although a parameter hides a package. -/
theorem SourceFile.transform_takes_proposal :
    ∃ f, ofCst shadowingText shadowingTree = .ok f ∧
      (∀ w ∈ ["_", "func", "fmt", "nil"], ∃ s t, Settings.ofTable [("start_identifier", .str w)] = .ok s ∧
        f.transform s = .ok t ∧ t.functions.map TimedFunction.identifier = [utf8 w]) ∧
      ((named "nil" 40 43 none).Within shadowingTree ∧ shadowingSource.slice 40 43 = utf8 "nil") ∧
      shadowingFunction.childByField? "parameters" = some shadowingParameters ∧
      (named "identifier" 17 21 (some "name")).Within shadowingParameters ∧
      shadowingSource.slice 17 21 = timePackage := by
  refine ⟨shadowingFile, ofCst_shadowing, fun w hw => ?_, ⟨?_, by decide +kernel⟩, rfl, ?_,
    by decide +kernel⟩
  · have hsettings := eq_ok_of_toOption (settings_shadowing w hw)
    obtain ⟨t, ht, hids⟩ := Option.map_eq_some_iff.mp (identifiers_shadowing w hw)
    exact ⟨_, t, hsettings, eq_ok_of_toOption ht, hids⟩
  · have hbody : (named "nil" 40 43 none).Within shadowingBody :=
      .child (List.mem_cons_of_mem _ List.mem_cons_self) (.child List.mem_cons_self
        (.child (List.mem_cons_of_mem _ List.mem_cons_self) .self))
    exact .child (d := shadowingFunction) (List.mem_of_getElem? (i := 2) rfl)
      (.child (d := shadowingBody) (List.mem_of_getElem? (i := 4) rfl) hbody)
  · exact .child (List.mem_cons_of_mem _ List.mem_cons_self) (.child List.mem_cons_self .self)

end Stopwatch
