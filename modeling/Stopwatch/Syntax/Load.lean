import Stopwatch.Syntax.Layout
import Stopwatch.Syntax.Node
import Stopwatch.Text.Blank
import Stopwatch.Text.Quoted

/-!
# From the concrete tree to the model

`SourceFile.ofCst` folds the concrete tree of a source into the model. Comments become items of their
own, except that one that starts on the row where the item before it ends, and ends there too, is kept
as that item's trailing comment. A tree with an error, and a file without a package clause, is refused.
-/

namespace Stopwatch

/-- Why a source cannot be loaded. Lines and columns count from one. -/
inductive LoadError where
  /-- The parser found something that fits nowhere. -/
  | unexpected (line col : Nat)
  /-- The parser missed something of the given kind. -/
  | missing (kind : String) (line col : Nat)
  /-- There is no package clause. -/
  | noPackage
  /-- The file could not be read at all. -/
  | unreadable (reason : String)
  deriving DecidableEq, Repr

namespace LoadError

/-- The line and the column of an error. -/
def position? : LoadError → Option (Nat × Nat)
  | unexpected line col => some (line, col)
  | missing _ line col => some (line, col)
  | noPackage => some (1, 1)
  | unreadable _ => none

/-- What is wrong. -/
def reason : LoadError → String
  | unexpected .. => "syntax error"
  | missing kind .. => "missing " ++ kind
  | noPackage => "expected 'package' clause"
  | unreadable reason => "cannot read file: " ++ reason

/-- The wording of an error in the file at `path`; a source without a path has a stand-in. -/
def message (path : Option String) (e : LoadError) : String :=
  let place :=
    match e.position? with
    | some (line, col) => ":" ++ toString line ++ ":" ++ toString col
    | none => ""
  "failed to parse " ++ path.getD "<source>" ++ place ++ ": " ++ e.reason

end LoadError

/-- A node with the kind of the node above it. -/
structure Item where
  parent : String
  node : Cst

namespace Load

/-- The kinds of leaves that spell an identifier. -/
def isIdentifierKind (kind : String) : Bool :=
  kind == "identifier" || kind == "field_identifier" || kind == "type_identifier" ||
    kind == "package_identifier" || kind == "label_name"

/-- The rows of a node, as a mark. -/
def markOf (source : Source) (c : Cst) : Mark := { span := some ⟨c.startRow source, c.endRow source⟩ }

/-! ## Lists of items -/

/-- Items by the byte they start at; items that start together keep their order. -/
def inOrder (items : List Item) : List Item :=
  items.mergeSort fun a b => a.node.start ≤ b.node.start

/-- Whether a comment belongs to the item `last`, which was made from the node `previous`. -/
def attaches (source : Source) (previous comment : Cst) (last : Node) : Bool :=
  let row := comment.startRow source
  last.mark.trailing.isNone && row == previous.endRow source && row == (source.point comment.stop).row

/-- A comment as an item. -/
def commentItem (source : Source) (i : Item) : Node :=
  .comment (markOf source i.node) (.ofNodes source i.parent [i.node])

/-- Convert sorted items. `done` holds what was made so far, last item first, with the node that the
last item was made from. -/
def fillFrom (source : Source) (convert : Item → Node) : Option (Cst × Node) → List Node → List Item →
    List Node
  | last, done, [] =>
    (match last with
      | some (_, n) => n :: done
      | none => done).reverse
  | last, done, i :: items =>
    let made := if i.node.kind == "comment" then commentItem source i else convert i
    match last with
    | none => fillFrom source convert (some (i.node, made)) done items
    | some (previous, n) =>
      if i.node.kind == "comment" && attaches source previous i.node n then
        let n := n.withTrailing (i.node.text source).trimEndWide
        fillFrom source convert (some (previous, n)) done items
      else fillFrom source convert (some (i.node, made)) (n :: done) items

/-- Convert the items of one list, in source order, with their comments. -/
def fill (source : Source) (convert : Item → Node) (items : List Item) : List Node :=
  fillFrom source convert none [] (inOrder items)

/-- The named children of a node as items; those of a child of kind `list` take its place. -/
def itemsOf (list : String) (c : Cst) : List Item :=
  c.namedChildren.flatMap fun d =>
    if d.kind == list then d.namedChildren.map (⟨d.kind, ·⟩) else [⟨c.kind, d⟩]

/-! ## Receivers -/

mutual

/-- The name of a type that is an identifier or an instance of a generic type. -/
def baseTypeName? (source : Source) : Cst → Option Text
  | .node i cs =>
    if i.kind == "type_identifier" then some (source.slice i.start i.stop)
    else if i.kind == "generic_type" then typeFieldName? source cs
    else none
termination_by structural c => c

/-- The name of the first of several nodes that has the role of a type. -/
def typeFieldName? (source : Source) : List Cst → Option Text
  | [] => none
  | c :: cs =>
    if c.info.field == some "type" then baseTypeName? source c else typeFieldName? source cs
termination_by structural cs => cs

end

/-- The stand-in for a receiver type without a name. -/
def unknownType : Text := utf8 "unknown"

/-- A name, or the stand-in if there is none. An empty name is none. -/
def orUnknown : Option Text → Text
  | some (b :: t) => b :: t
  | _ => unknownType

/-- A receiver's type as it is shown: its name, with a star if it is a pointer. -/
def receiverType (source : Source) : Option Cst → Text
  | none => unknownType
  | some c =>
    if c.kind == "pointer_type" then
      42 :: orUnknown ((c.namedChildren.head?).bind (baseTypeName? source))
    else orUnknown (baseTypeName? source c)

/-- The receiver of a method: the type of the first parameter in its list. -/
def receiver? (source : Source) (params : Option Cst) : Option Text :=
  params.bind fun ps =>
    (ps.namedChildren.find? (·.kind == "parameter_declaration")).map fun p =>
      receiverType source (p.childByField? "type")

/-! ## Items -/

/-- A statement of a body. -/
def stmt (source : Source) (i : Item) : Node :=
  .rawStmt (markOf source i.node) i.node.kind (.ofNodes source i.parent [i.node])

/-- A sequence in braces. -/
def body (source : Source) (c : Cst) : Body Node :=
  ⟨markOf source c, fill source (stmt source) (itemsOf "statement_list" c)⟩

/-- A function or a method. -/
def funcDecl (source : Source) (c : Cst) : Node :=
  let bodyNode := c.childByField? "body"
  let head :=
    match bodyNode with
    | some b => c.children.filter fun d => d.stop ≤ b.start
    | none => c.children
  .funcDecl (markOf source c)
    { name := ((c.childByField? "name").map (·.text source)).getD []
      signature := .ofNodes source c.kind head
      receiver := receiver? source (c.childByField? "receiver") }
    (bodyNode.map (body source))

/-- An entry of an import declaration. -/
def importSpec (source : Source) (i : Item) : Node :=
  let literal := ((i.node.childByField? "path").getD i.node).text source
  .importSpec (markOf source i.node)
    { path := Text.Quoted.strip literal
      literal := literal
      name := (i.node.childByField? "name").map (·.text source) }

/-- An import declaration; it is grouped when it has a list of entries. -/
def importDecl (source : Source) (c : Cst) : Node :=
  .importDecl (markOf source c) (fill source (importSpec source) (itemsOf "import_spec_list" c))
    (c.namedChildren.any (·.kind == "import_spec_list"))

/-- A top-level item. -/
def decl (source : Source) (i : Item) : Node :=
  let c := i.node
  if c.kind == "package_clause" then
    .packageClause (markOf source c) (((c.namedChildren.head?).getD c).text source)
  else if c.kind == "import_declaration" then importDecl source c
  else if c.kind == "function_declaration" || c.kind == "method_declaration" then funcDecl source c
  else .rawDecl (markOf source c) c.kind (.ofNodes source i.parent [c])

/-- Whether a node is a package clause. -/
def isPackageClause : Node → Bool
  | .packageClause .. => true
  | _ => false

end Load

namespace SourceFile

/-- The error a tree is refused for. -/
def errorOf (source : Source) (root : Cst) : LoadError :=
  let bad := root.firstError?.getD root
  let p := source.point bad.start
  if bad.info.missing then .missing bad.kind (p.row + 1) (p.col + 1)
  else .unexpected (p.row + 1) (p.col + 1)

/-- The model of an error-free tree, which may lack a package clause. -/
def build (source : Source) (root : Cst) : SourceFile where
  mark := Load.markOf source root
  decls := Load.fill source (Load.decl source) (root.namedChildren.map (⟨root.kind, ·⟩))
  identifiers :=
    (root.leaves "").filterMap fun l =>
      if Load.isIdentifierKind l.kind then some (source.slice l.start l.stop) else none

/-- The model of a source with a given concrete tree. -/
def ofCst (text : Text) (root : Cst) : Except LoadError SourceFile :=
  let source := Source.ofText text
  if root.hasError then .error (errorOf source root)
  else
    let file := build source root
    if file.decls.any Load.isPackageClause then .ok file else .error .noPackage

end SourceFile

end Stopwatch
