import Stopwatch.Syntax.Concrete
import Stopwatch.Syntax.Fragment

/-!
# Layout of a fragment

Tokens spread over source rows become the lines of a `Fragment`. A row that starts inside a token is
taken verbatim. For any other row the leading white space is dropped and a depth is computed from the
brackets that are open there: all brackets that one row leaves open share a single level, carried by
the innermost of them. `case`, `default` and labels stand one level further out, a row that continues
an operator one level further in. Runs of rows without tokens become one empty line.
-/

namespace Stopwatch

/-- A token with its place in the source. -/
structure PlacedLeaf where
  kind : String
  parent : String
  first : Point
  last : Point
  deriving DecidableEq, Repr

/-- A token with the place it has in `source`. -/
def Leaf.place (source : Source) (l : Leaf) : PlacedLeaf :=
  ⟨l.kind, l.parent, source.point l.start, source.point l.stop⟩

/-- Whether a token is the label of a labeled statement. -/
def PlacedLeaf.isLabel (l : PlacedLeaf) : Bool :=
  l.kind == "label_name" && l.parent == "labeled_statement"

namespace Layout

/-- The opening brackets. -/
def isOpener (kind : String) : Bool := kind == "(" || kind == "[" || kind == "\x7b"

/-- The closing brackets. -/
def isCloser (kind : String) : Bool := kind == ")" || kind == "]" || kind == "\x7d"

/-- The operators after which a row goes on below. -/
def continuations : List String :=
  ["+", "-", "*", "/", "%", "&", "|", "^", "<<", ">>", "&^", "&&", "||", "==", "!=", "<", "<=", ">",
   ">=", "<-", "=", ":=", "+=", "-=", "*=", "/=", "%=", "&=", "|=", "^=", "<<=", ">>=", "&^=", "."]

/-- The levels that the open brackets carry, innermost first: one or none each. -/
abbrev Levels := List Nat

/-- The number of levels that are open. -/
def openLevels (levels : Levels) : Nat := levels.foldr Nat.add 0

/-- The open brackets after some tokens, and the fewest that were open on the way. -/
def openAfter : Levels → Nat → List PlacedLeaf → Levels × Nat
  | stack, low, [] => (stack, low)
  | stack, low, l :: ls =>
    if isOpener l.kind then openAfter (0 :: stack) low ls
    else if isCloser l.kind then
      match stack with
      | [] => openAfter [] low ls
      | _ :: stack => openAfter stack (min low stack.length) ls
    else openAfter stack low ls

/-- The levels after the tokens of one row: what the row leaves open counts as one level. -/
def advance (stack : Levels) (row : List PlacedLeaf) : Levels :=
  match openAfter stack stack.length row with
  | ([], _) => []
  | (top :: rest, low) => if low < rest.length + 1 then 1 :: rest else top :: rest

/-- The levels once the closing brackets that lead a row are taken away, and the other tokens. -/
def closeLeading : Levels → List PlacedLeaf → Levels × List PlacedLeaf
  | stack, [] => (stack, [])
  | stack, l :: ls => if isCloser l.kind then closeLeading stack.tail ls else (stack, l :: ls)

/-- What is carried from row to row: the levels, the kind of the last token, and the lines so far, last
line first. -/
structure State where
  levels : Levels := []
  previous : Option String := none
  lines : List FragmentLine := []

/-- The depth of a row with `levels` open that starts with the token `l`. -/
def depthOf (isFirst : Bool) (levels : Levels) (previous : Option String) (l : PlacedLeaf) : Int :=
  let base : Int := if isFirst then 0 else Int.ofNat (openLevels levels)
  let depth :=
    if l.kind == "case" || l.kind == "default" then base - 1
    else if l.isLabel then base - 1
    else if !isFirst && previous.any continuations.contains then base + 1
    else base
  if !isFirst && depth < 0 then 0 else depth

/-- The kind of the last token of a row, or the one before. -/
def lastKind (previous : Option String) (row : List PlacedLeaf) : Option String :=
  match row.getLast? with
  | some l => some l.kind
  | none => previous

/-- One row: `raw` is its text up to the end of the fragment, `row` the tokens that start on it. -/
def step (isFirst inside openEnd : Bool) (raw : Text) (row : List PlacedLeaf) (s : State) : State :=
  if inside then
    { levels := advance s.levels row
      previous := lastKind s.previous row
      lines := ⟨0, if openEnd then raw else raw.trimEnd, true⟩ :: s.lines }
  else
    match row with
    | [] =>
      match s.lines with
      | ⟨_, [], false⟩ :: _ => s
      | _ => { s with lines := ⟨0, [], false⟩ :: s.lines }
    | l :: ls =>
      let text : Text := raw.drop l.first.col
      let (levels, rest) := closeLeading s.levels (l :: ls)
      { levels := advance levels rest
        previous := lastKind s.previous (l :: ls)
        lines :=
          ⟨depthOf isFirst levels s.previous l, if openEnd then text else text.trimEnd, false⟩ ::
            s.lines }

/-- The fragment of tokens placed on the rows of a source. -/
def ofPlaced (rows : List Text) (leaves : List PlacedLeaf) : Fragment :=
  match leaves.head?, leaves.getLast? with
  | some l, some r =>
    let start := l.first.row
    let indices := List.range' start (r.last.row + 1 - start)
    let visit (s : State) (i : Nat) : State :=
      let raw := rows.getD i []
      step (i == start)
        (leaves.any fun x => x.first.row < i && i ≤ x.last.row)
        (leaves.any fun x => x.first.row ≤ i && i < x.last.row)
        (if i == r.last.row then raw.take r.last.col else raw)
        (leaves.filter fun x => x.first.row == i) s
    (indices.foldl visit {}).lines.reverse
  | _, _ => []

end Layout

/-- The fragment of some neighbouring nodes of a source. -/
def Fragment.ofNodes (source : Source) (parent : String) (nodes : List Cst) : Fragment :=
  Layout.ofPlaced source.rows ((Cst.leavesAll parent nodes).map (Leaf.place source))

end Stopwatch
