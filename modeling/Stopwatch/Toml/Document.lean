import Stopwatch.Toml.Scalar

/-!
# Documents

A document is read statement by statement: an entry, a table header or the header of a list of tables.
`Toml.read` gives its table.

Three sets of paths say what may still be written. A table that was opened by a header, or passed
through by a dotted key of an earlier section, is *settled* and cannot be opened again; an inline array
or table is *frozen* with everything below it; paths that the current section passes through are
*pending* and are settled when the next header comes.
-/

namespace Stopwatch.Toml

/-- A dotted key. -/
abbrev Key := List String

/-- Skip a comment, if there is one, up to the end of its line. -/
def skipComment : List Char → Except Fault (List Char)
  | '#' :: cs =>
    if (cs.takeWhile (· != '\n')).any isControl then .error .malformed
    else .ok (cs.dropWhile (· != '\n'))
  | cs => .ok cs

/-- Skip white space, line ends and comments. The first argument bounds the number of comments. -/
def skipBetween : Nat → List Char → Except Fault (List Char)
  | 0, cs => .ok cs
  | n + 1, cs => do
    let cs := cs.dropWhile isSpaceOrNewline
    let rest ← skipComment cs
    if rest.length < cs.length then skipBetween n rest else return rest

/-! ## Keys -/

/-- The characters of a bare key. -/
def isBareKeyChar (c : Char) : Bool := c.isAlphanum || c == '-' || c == '_'

/-- One part of a key. -/
def keyPart : Reader String
  | '"' :: cs => lineString '"' cs
  | '\'' :: cs => lineString '\'' cs
  | cs =>
    match cs.takeWhile isBareKeyChar with
    | [] => .error .malformed
    | part => .ok (String.ofList part, cs.dropWhile isBareKeyChar)

/-- The parts of a key; white space may surround each. The first argument bounds their number. -/
def key : Nat → Reader Key
  | 0, _ => .error .malformed
  | n + 1, cs => do
    let (part, cs) ← keyPart cs
    match cs.dropWhile isSpace with
    | '.' :: cs =>
      let (parts, cs) ← key n (cs.dropWhile isSpace)
      return (part :: parts, cs)
    | cs => return ([part], cs)

/-- Whether one of the paths is the key or leads to it. -/
def covers (paths : List Key) (k : Key) : Bool := paths.any fun p => p.isPrefixOf k

/-! ## Values -/

/-- A key and what follows its equals sign. -/
def keyAndEquals : Reader Key := fun cs => do
  let (k, cs) ← key (cs.length + 1) cs
  match cs with
  | '=' :: cs => return (k, cs.dropWhile isSpace)
  | _ => .error .malformed

/-- Whether a value is an inline array or table. -/
def isContainer : Value → Bool
  | .array _ | .table _ => true
  | _ => false

mutual

/-- Any value. The first argument bounds the depth of the reading. Every depth that a document can have is
within it: no stack runs out. -/
def value : Nat → Reader Value
  | 0, _ => .error .malformed
  | n + 1, cs =>
    match after? "\"\"\"" cs, after? "'''" cs with
    | some cs, _ => (multilineString '"' cs).map fun (s, rest) => (.str s, rest)
    | _, some cs => (multilineString '\'' cs).map fun (s, rest) => (.str s, rest)
    | none, none =>
      match cs with
      | '"' :: cs => (lineString '"' cs).map fun (s, rest) => (.str s, rest)
      | '\'' :: cs => (lineString '\'' cs).map fun (s, rest) => (.str s, rest)
      | '[' :: cs => elements n [] cs
      | '\x7b' :: cs =>
        match cs.dropWhile isSpace with
        | '\x7d' :: rest => .ok (.table [], rest)
        | cs => inlineEntries n [] [] cs
      | cs => plain cs

/-- The elements of an array up to its closing bracket, behind those already read. -/
def elements : Nat → List Value → Reader Value
  | 0, _, _ => .error .malformed
  | n + 1, done, cs => do
    let cs ← skipBetween cs.length cs
    match cs with
    | ']' :: rest => return (.array done, rest)
    | cs =>
      let (v, cs) ← value n cs
      let cs ← skipBetween cs.length cs
      match cs with
      | ']' :: rest => return (.array (done ++ [v]), rest)
      | ',' :: rest => elements n (done ++ [v]) rest
      | _ => .error .malformed

/-- The entries of an inline table up to its closing brace, behind those already read. -/
def inlineEntries : Nat → Table → List Key → Reader Value
  | 0, _, _, _ => .error .malformed
  | n + 1, done, frozen, cs => do
    let (k, cs) ← keyAndEquals cs
    let (v, cs) ← value n cs
    if covers frozen k then .error .malformed
    else
      match done.updateAt false k.dropLast (Table.addNew (k.getLastD "") v) with
      | none => .error .malformed
      | some done =>
        match cs.dropWhile isSpace with
        | '\x7d' :: rest => return (.table done, rest)
        | ',' :: rest =>
          inlineEntries n done (if isContainer v then k :: frozen else frozen) (rest.dropWhile isSpace)
        | _ => .error .malformed

end

/-! ## Statements -/

/-- A document as far as it was read. -/
structure Draft where
  root : Table := []
  opened : Key := []
  settled : List Key := []
  frozen : List Key := []
  pending : List Key := []

namespace Draft

/-- What the pending paths become when a header comes. -/
def settle (p : Draft) : Draft := { p with settled := p.pending ++ p.settled, pending := [] }

/-- Open a table by its header. -/
def openTable (p : Draft) (k : Key) : Option Draft :=
  if p.settled.contains k || covers p.frozen k then none
  else
    (p.root.updateAt true k some).map fun root =>
      { p with root := root, opened := k, settled := k :: p.settled }

/-- Add a table to a list of tables and open it; what was said of the one before is forgotten. -/
def openListed (p : Draft) (k : Key) : Option Draft :=
  if covers p.frozen k then none
  else
    (p.root.updateAt true k.dropLast (Table.addToList (k.getLastD ""))).map fun root =>
      { p with
        root := root
        opened := k
        settled := k :: p.settled.filter fun s => !k.isPrefixOf s
        frozen := p.frozen.filter fun s => !k.isPrefixOf s }

/-- Add an entry to the open table. -/
def addEntry (p : Draft) (k : Key) (v : Value) : Option Draft :=
  let passed := (List.range (k.length - 1)).map fun i => p.opened ++ k.take (i + 1)
  let parent := p.opened ++ k.dropLast
  if passed.any p.settled.contains || covers p.frozen parent then none
  else
    (p.root.updateAt true parent (Table.addNew (k.getLastD "") v)).map fun root =>
      { p with
        root := root
        pending := passed ++ p.pending
        frozen := if isContainer v then (p.opened ++ k) :: p.frozen else p.frozen }

end Draft

/-- A result, or the fault that there is none. -/
def orMalformed : Option α → Except Fault α
  | some a => .ok a
  | none => .error .malformed

/-- One statement, from its first character on. -/
def statement (p : Draft) (cs : List Char) : Except Fault (Draft × List Char) :=
  match cs with
  | '[' :: '[' :: cs => do
    let (k, cs) ← key (cs.length + 1) (cs.dropWhile isSpace)
    let p ← orMalformed (p.settle.openListed k)
    let cs ← orMalformed (after? "]]" cs)
    return (p, cs)
  | '[' :: cs => do
    let (k, cs) ← key (cs.length + 1) (cs.dropWhile isSpace)
    let p ← orMalformed (p.settle.openTable k)
    let cs ← orMalformed (after? "]" cs)
    return (p, cs)
  | '#' :: _ => .ok (p, cs)
  | cs => do
    let (k, cs) ← keyAndEquals cs
    let (v, cs) ← value (2 * cs.length + 2) cs
    let p ← orMalformed (p.addEntry k v)
    return (p, cs)

/-- The statements of a document. The first argument bounds their number. -/
def statements : Nat → Draft → List Char → Except Fault Draft
  | 0, _, _ => .error .malformed
  | n + 1, p, cs =>
    match cs.dropWhile isSpace with
    | [] => .ok p
    | '\n' :: cs => statements n p cs
    | cs => do
      let (p, cs) ← statement p cs
      let cs ← skipComment (cs.dropWhile isSpace)
      match cs with
      | [] => return p
      | '\n' :: cs => statements n p cs
      | _ => .error .malformed

/-- The table of a document. -/
def read (cs : List Char) : Except Fault Table :=
  (statements (cs.length + 1) {} cs).map Draft.root

end Stopwatch.Toml
