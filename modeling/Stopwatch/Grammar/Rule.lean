import Stopwatch.Grammar.Token
import Stopwatch.Syntax.Concrete

/-!
# Grammar rules

A grammar is data: a `Rule` for each symbol. Rules are read from the left, an `alt` takes the first
alternative that fits and a `many` as many repetitions as it can. `Rule.parse` reads tokens by a rule
and gives the concrete nodes for them.

A row end matters only where a statement could end. `sameRow` asks that it does not intervene there, and
`ended` that a statement ends: at a new row, a semicolon, a zero byte or the end of the file. Inside brackets and in
the headers of control statements a new row means nothing, which is what a `Mode` keeps track of,
together with whether a brace may start the value of a composite literal.
-/

namespace Stopwatch

/-- How the surroundings bear on a rule. -/
structure Mode where
  /-- A new row may end a statement. -/
  rowsCount : Bool
  /-- A brace behind a type name starts a literal value. -/
  literals : Bool
  deriving DecidableEq, Repr

namespace Mode

/-- In a sequence of statements or declarations. -/
def lines : Mode := ⟨true, true⟩

/-- Between brackets. -/
def fenced : Mode := ⟨false, true⟩

/-- In the header of a control statement. -/
def header : Mode := ⟨false, false⟩

end Mode

/-- The words that end a statement: the semicolon and the zero byte. -/
def terminators : List String := [";", "\x00"]

/-- A rule over the symbols `σ`. -/
inductive Rule (σ : Type) where
  /-- A given keyword, operator or bracket. -/
  | word (spelling : String)
  /-- A name, as a leaf of the given kind. -/
  | name (kind : String)
  /-- A name out of a list, as a leaf of the given kind. -/
  | nameIn (spellings : List String) (kind : String)
  /-- A number or a rune. -/
  | literal
  /-- A string of either form. -/
  | quoted
  /-- All rules one after another. -/
  | seq (rules : List (Rule σ))
  /-- The first rule that fits. -/
  | alt (rules : List (Rule σ))
  /-- The rule as often as it fits. -/
  | many (rule : Rule σ)
  /-- A node around what the rule gives; its kind is this one unless a `tag` below says otherwise. -/
  | node (kind : String) (rule : Rule σ)
  /-- Sets the kind of the node around. -/
  | tag (kind : String)
  /-- The role of what the rule gives. -/
  | field (name : String) (rule : Rule σ)
  /-- The rule of a symbol. -/
  | ref (symbol : σ)
  /-- Nothing, where no row end intervenes. -/
  | sameRow
  /-- The end of a statement. -/
  | ended
  /-- Nothing, where the given word does not follow. -/
  | notBefore (spelling : String)
  /-- Nothing, where a brace may start a literal value. -/
  | literalsAllowed
  /-- A rule in other surroundings. -/
  | within (mode : Mode) (rule : Rule σ)

namespace Rule

variable {σ : Type}

/-- A rule or nothing. -/
def opt (r : Rule σ) : Rule σ := alt [r, seq []]

/-- The rule once or more often, with a separator between. -/
def separated (sep r : Rule σ) : Rule σ := seq [r, many (seq [sep, r])]

/-- What a rule gives: nodes, and the kind it asks for the node around them. -/
structure Output where
  nodes : List Cst := []
  tag : Option String := none

/-- One output behind another. -/
def Output.append (a b : Output) : Output := ⟨a.nodes ++ b.nodes, b.tag.or a.tag⟩

/-- A leaf for a token. -/
def leaf (kind : String) (named : Bool) (t : Token) : Output :=
  ⟨[.node { kind := kind, start := t.start, stop := t.stop, named := named } []], none⟩

/-- A node around the nodes of an output; without any it is left out. -/
def wrap (kind : String) (o : Output) : Output :=
  match o.nodes.head?, o.nodes.getLast? with
  | some a, some b =>
    ⟨[.node { kind := o.tag.getD kind, start := a.start, stop := b.stop, named := true } o.nodes], none⟩
  | _, _ => {}

/-- Nodes with a role. -/
def withField (name : String) (o : Output) : Output :=
  { o with nodes := o.nodes.map fun | .node i cs => .node { i with field := some name } cs }

/-- The leaves of the pieces of a string, from `offset` on. -/
def pieceLeaves : Nat → List (String × Nat) → List Cst
  | _, [] => []
  | offset, (kind, len) :: ps =>
    .node { kind := kind, start := offset, stop := offset + len, named := true } [] ::
      pieceLeaves (offset + len) ps

/-- A string literal: its quotes and what is between them. -/
def stringNode (kind quote : String) (t : Token) : Output :=
  wrap kind ⟨.node { kind := quote, start := t.start, stop := t.start + 1 } [] ::
    pieceLeaves (t.start + 1) t.pieces ++
      [.node { kind := quote, start := t.stop - 1, stop := t.stop } []], none⟩

/-- Read tokens by a rule: what it gives and the tokens left. The first argument bounds the depth of
the reading. -/
def parse (rules : σ → Rule σ) : Nat → Rule σ → Mode → List Token → Option (Output × List Token)
  | 0, _, _, _ => none
  | n + 1, rule, mode, tokens =>
    match rule with
    | word w =>
      match tokens with
      | t :: ts => if t.lexeme = .word w then some (leaf w false t, ts) else none
      | [] => none
    | name kind =>
      match tokens with
      | t :: ts =>
        match t.lexeme with
        | .name _ => some (leaf kind true t, ts)
        | _ => none
      | [] => none
    | nameIn spellings kind =>
      match tokens with
      | t :: ts =>
        match t.lexeme with
        | .name s => if (spellings.map utf8).contains s then some (leaf kind true t, ts) else none
        | _ => none
      | [] => none
    | literal =>
      match tokens with
      | t :: ts =>
        match t.lexeme with
        | .literal kind => some (leaf kind true t, ts)
        | _ => none
      | [] => none
    | quoted =>
      match tokens with
      | t :: ts =>
        match t.lexeme with
        | .string => some (stringNode "interpreted_string_literal" "\"" t, ts)
        | .rawString => some (stringNode "raw_string_literal" "\x60" t, ts)
        | _ => none
      | [] => none
    | seq [] => some ({}, tokens)
    | seq (r :: rs) =>
      (parse rules n r mode tokens).bind fun (a, rest) =>
        (parse rules n (seq rs) mode rest).map fun (b, rest) => (a.append b, rest)
    | alt [] => none
    | alt (r :: rs) =>
      match parse rules n r mode tokens with
      | some found => some found
      | none => parse rules n (alt rs) mode tokens
    | many r =>
      match parse rules n r mode tokens with
      | none => some ({}, tokens)
      | some (a, rest) =>
        if rest.length < tokens.length then
          (parse rules n (many r) mode rest).map fun (b, rest) => (a.append b, rest)
        else some ({}, tokens)
    | node kind r => (parse rules n r mode tokens).map fun (o, rest) => (wrap kind o, rest)
    | tag kind => some (⟨[], some kind⟩, tokens)
    | field f r => (parse rules n r mode tokens).map fun (o, rest) => (withField f o, rest)
    | ref s => parse rules n (rules s) mode tokens
    | sameRow =>
      match tokens with
      | t :: _ => if mode.rowsCount && t.newRow then none else some ({}, tokens)
      | [] => some ({}, tokens)
    | ended =>
      match tokens with
      | [] => some ({}, tokens)
      | t :: ts =>
        if t.newRow then some ({}, tokens)
        else
          (terminators.find? fun w => t.lexeme = .word w).map fun w => (leaf w false t, ts)
    | notBefore w =>
      match tokens with
      | t :: _ => if t.lexeme = .word w then none else some ({}, tokens)
      | [] => some ({}, tokens)
    | literalsAllowed => if mode.literals then some ({}, tokens) else none
    | within mode r => parse rules n r mode tokens

end Rule

end Stopwatch
