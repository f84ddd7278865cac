import Stopwatch.Grammar.Rule

/-!
# The grammar of Go

The rules follow the language's own grammar, with the freedoms that row ends bring: inside brackets and
in the middle of a construct a new row is white space. Expressions are read flat, as operands with
operators between them, since nothing looks inside an expression but for its names and brackets; types,
statements and declarations are nodes of their own.
-/

namespace Stopwatch.Go

/-- The symbols that rules refer to, directly or through others, in a circle. -/
inductive Nonterminal where
  | expression
  | type
  | literalValue
  | parameters
  | statement
  | statements
  | block
  | ifStatement
  | switchRest
  deriving DecidableEq, Repr

/-- Rules of this grammar. -/
abbrev R := Rule Nonterminal

open Rule Nonterminal

/-! ## Small things -/

/-- An expression. -/
def expr : R := ref expression

/-- A type. -/
def typ : R := ref type

/-- A rule between brackets. -/
def inParens (r : R) : R := seq [word "(", within .fenced r, word ")"]

/-- A rule between square brackets. -/
def inBrackets (r : R) : R := seq [word "[", within .fenced r, word "]"]

/-- Lines between braces. -/
def inBraces (r : R) : R := seq [word "\x7b", within .lines r, word "\x7d"]

/-- A comma-separated list, where a comma may follow the last entry. -/
def commaList (r : R) : R := seq [separated (word ",") r, opt (word ",")]

/-- Entries that are ended one by one; the closing bracket ends the last. -/
def entries (r : R) : R := opt (seq [separated ended r, opt ended])

/-- Several names. -/
def names (kind : String) : R := separated (word ",") (name kind)

/-- One word out of several. -/
def oneOf (words : List String) : R := alt (words.map word)

/-! ## Types -/

/-- A name of a package's type. -/
def qualifiedType : R :=
  node "qualified_type" (seq [name "package_identifier", word ".", name "type_identifier"])

/-- A union of types, as constraints have them. -/
def typeElement : R := separated (seq [sameRow, word "|"]) typ

/-- The arguments of a generic type. -/
def typeArguments : R := node "type_arguments" (inBrackets (commaList typeElement))

/-- A named type, perhaps with arguments. -/
def typeName : R := alt [
  node "generic_type"
    (seq [field "type" (alt [qualifiedType, name "type_identifier"]), sameRow, typeArguments]),
  qualifiedType,
  name "type_identifier"]

/-- The result of a function: parameters or a type, on the row where the parameters end. -/
def result : R := seq [sameRow, field "result" (alt [ref parameters, typ])]

/-- The parameters and the result of a function. -/
def signature : R := seq [field "parameters" (ref parameters), opt result]

/-- One parameter, or several that share a type. -/
def parameter : R := alt [
  node "variadic_parameter_declaration"
    (seq [opt (field "name" (name "identifier")), word "...", field "type" typ]),
  node "parameter_declaration" (seq [field "name" (names "identifier"), field "type" typ]),
  node "parameter_declaration" (field "type" typ)]

/-- A field of a structure, named or embedded, with its tag. -/
def structField : R := node "field_declaration" (seq [
  alt [seq [names "field_identifier", sameRow, typ], seq [opt (word "*"), typeName]],
  opt (seq [sameRow, quoted])])

/-- An element of an interface: a method or a union of types. -/
def interfaceElement : R := alt [
  node "method_elem" (seq [name "field_identifier", sameRow, signature]),
  node "type_elem" typeElement]

/-- A structure type. -/
def structType : R :=
  node "struct_type"
    (seq [word "struct", node "field_declaration_list" (inBraces (entries structField))])

/-- A slice or an array type. -/
def arrayType : R := alt [
  node "slice_type" (seq [word "[", word "]", typ]),
  node "array_type" (seq [inBrackets expr, sameRow, typ])]

/-- A map type. -/
def mapType : R := node "map_type" (seq [word "map", inBrackets typ, typ])

/-- Any type. -/
def typeRule : R := alt [
  typeName,
  node "pointer_type" (seq [word "*", typ]),
  arrayType,
  mapType,
  structType,
  node "interface_type" (seq [word "interface", inBraces (entries interfaceElement)]),
  node "function_type" (seq [word "func", signature]),
  node "channel_type" (seq [word "chan", opt (word "<-"), typ]),
  node "channel_type" (seq [word "<-", word "chan", typ]),
  node "parenthesized_type" (inParens typ),
  node "negated_type" (seq [word "~", typ])]

/-! ## Expressions -/

/-- The operators in front of an operand. -/
def unaryOperators : List String := ["+", "-", "!", "^", "*", "&", "<-"]

/-- The operators between operands. -/
def binaryOperators : List String :=
  ["*", "/", "%", "<<", ">>", "&", "&^", "+", "-", "|", "^", "==", "!=", "<", "<=", ">", ">=", "&&",
   "||"]

/-- The value of an entry of a composite literal. -/
def element : R := alt [ref literalValue, expr]

/-- The value of a composite literal. -/
def literalValueRule : R :=
  seq [word "\x7b",
    within .fenced (opt (commaList (seq [element, opt (seq [word ":", element])]))), word "\x7d"]

/-- An argument of a call. -/
def argument : R := seq [expr, opt (word "...")]

/-- The arguments of a call. -/
def arguments : R := inParens (opt (commaList argument))

/-- What follows the first colon of a slice; a second one needs a bound on either side. -/
def sliceRest : R := opt (seq [expr, opt (seq [word ":", expr])])

/-- What stands between the brackets of an index, a slice or an instantiation. -/
def indices : R := alt [
  seq [word ":", sliceRest],
  seq [expr, alt [
    seq [word ":", sliceRest],
    seq [many (seq [word ",", alt [typ, expr]]), opt (word ",")]]],
  commaList typeElement]

/-- What may follow an operand on its row. -/
def postfixRule : R := seq [sameRow, alt [
  seq [word ".", alt [name "field_identifier", inParens typ]],
  inBrackets indices,
  arguments]]

/-- A literal value behind its type. -/
def typedLiteral : R := ref literalValue

/-- An operand that starts with a name. -/
def namedOperand : R := alt [
  seq [typeName, literalsAllowed, sameRow, typedLiteral],
  seq [nameIn ["new", "make"] "identifier", sameRow,
    inParens (seq [typ, many (seq [word ",", expr]), opt (word ",")])],
  nameIn ["nil"] "nil",
  nameIn ["true"] "true",
  nameIn ["false"] "false",
  nameIn ["iota"] "iota",
  name "identifier"]

/-- An operand. -/
def operand : R := alt [
  namedOperand,
  literal,
  quoted,
  alt [inParens expr, inParens typ],
  seq [alt [arrayType, mapType, structType,
      node "implicit_length_array_type" (seq [word "[", word "...", word "]", typ])],
    alt [typedLiteral, arguments]],
  seq [word "func", signature, alt [ref block, arguments]],
  seq [node "interface_type" (seq [word "interface", inBraces (entries interfaceElement)]), arguments],
  seq [node "channel_type" (seq [word "chan", opt (word "<-"), typ]), arguments]]

/-- An operand with everything before and behind it. -/
def unary : R := seq [many (oneOf unaryOperators), operand, many postfixRule]

/-- Any expression. -/
def expressionRule : R := separated (seq [sameRow, oneOf binaryOperators]) unary

/-- Several expressions. -/
def exprs : R := separated (seq [sameRow, word ","]) expr

/-! ## Simple statements -/

/-- The operators of assignments. -/
def assignmentOperators : List String :=
  ["=", "+=", "-=", "*=", "/=", "%=", "&=", "|=", "^=", "<<=", ">>=", "&^="]

/-- More expressions on the left of an assignment. -/
def moreLeft : R := many (seq [word ",", expr])

/-- What makes a first expression a statement other than an expression; `mark` names the kind. -/
def simpleTail (mark : String → R) : R := seq [sameRow, alt [
  seq [moreLeft, word ":=", mark "short_var_declaration", exprs],
  seq [moreLeft, oneOf assignmentOperators, mark "assignment_statement", exprs],
  seq [word "++", mark "inc_statement"],
  seq [word "--", mark "dec_statement"],
  seq [word "<-", mark "send_statement", expr]]]

/-- A simple statement; what a colon follows is a label. -/
def simpleStatement : R :=
  node "expression_statement" (seq [expr, opt (simpleTail tag), notBefore ":"])

/-- The tail of a simple statement in a header, where kinds do not matter. -/
def headerTail : R := simpleTail fun _ => seq []

/-! ## Declarations -/

/-- One entry, or a group of them in parentheses. -/
def groupOr (r : R) : R :=
  alt [seq [word "(", within .lines (entries r), word ")"], r]

/-- Constants that share a value list; the list may be left out. -/
def constSpec : R := node "const_spec"
  (seq [names "identifier", opt (seq [sameRow, opt typ, word "=", exprs])])

/-- Variables with a type, a value list or both. -/
def varSpec : R := node "var_spec" (seq [names "identifier", alt [
  seq [word "=", exprs],
  seq [typ, opt (seq [sameRow, word "=", exprs])]]])

/-- The parameters of a generic function or type. -/
def typeParameters : R := node "type_parameter_list"
  (inBrackets (commaList (seq [names "identifier", typeElement])))

/-- A type definition or an alias. -/
def typeSpec : R := node "type_spec" (seq [name "type_identifier", alt [
  seq [word "=", typ],
  seq [typeParameters, opt (word "="), typ],
  typ]])

/-- A declaration that may stand in a body. -/
def declaration : R := alt [
  node "const_declaration" (seq [word "const", groupOr constSpec]),
  node "var_declaration" (seq [word "var", groupOr varSpec]),
  node "type_declaration" (seq [word "type", groupOr typeSpec])]

/-! ## Statements -/

/-- The header of an `if`: a condition, perhaps behind a simple statement. -/
def ifHeader : R := seq [expr, opt (seq [opt headerTail, word ";", expr])]

/-- A conditional. -/
def ifRule : R := node "if_statement"
  (seq [word "if", within .header ifHeader, ref block,
    opt (seq [sameRow, word "else", alt [ref ifStatement, ref block]])])

/-- What follows the first semicolon of a `for` header. -/
def forRest : R := seq [opt expr, word ";", opt (seq [expr, opt headerTail])]

/-- The header of a `for`: a range, three clauses, a condition or nothing. -/
def forHeader : R := alt [
  seq [word "range", expr],
  seq [word ";", forRest],
  seq [expr, alt [
    seq [moreLeft, oneOf [":=", "="], word "range", expr],
    seq [opt headerTail, word ";", forRest],
    seq []]],
  seq []]

/-- The statements of a case. -/
def caseBody : R := seq [word ":", opt (ref statements)]

/-- The default case of a switch or a select. -/
def defaultCase : R := node "default_case" (seq [word "default", caseBody])

/-- The cases of an expression switch. -/
def expressionCases : R := inBraces (many (alt [
  node "expression_case" (seq [word "case", within .fenced exprs, caseBody]), defaultCase]))

/-- The cases of a type switch. -/
def typeCases : R := inBraces (many (alt [
  node "type_case" (seq [word "case", within .fenced (separated (word ",") typ), caseBody]),
  defaultCase]))

/-- The end of a type switch's header, and its cases. -/
def typeTest : R :=
  seq [word ".", word "(", word "type", word ")", tag "type_switch_statement", typeCases]

/-- A switch behind its keyword. -/
def switchRule : R := alt [
  expressionCases,
  seq [expr, alt [
    typeTest,
    expressionCases,
    seq [moreLeft, word ":=", exprs, typeTest],
    seq [opt headerTail, word ";", ref switchRest]]]]

/-- The communication of a case of a select. -/
def communication : R := seq [expr, opt (alt [
  seq [word "<-", expr],
  seq [moreLeft, oneOf [":=", "="], expr]])]

/-- A select. -/
def selectRule : R := node "select_statement" (seq [word "select", inBraces (many (alt [
  node "communication_case" (seq [word "case", within .fenced communication, caseBody]),
  defaultCase]))])

/-- A label. -/
def label : R := seq [name "label_name", sameRow, word ":"]

/-- A label with nothing behind it, at the end of a block. -/
def emptyLabeled : R := node "labeled_statement" label

/-- A keyword that may be followed by a label. -/
def jump (kind keyword : String) : R :=
  node kind (seq [word keyword, opt (seq [sameRow, name "label_name"])])

/-- Any statement. -/
def statementRule : R := alt [
  declaration,
  node "return_statement" (seq [word "return", opt (seq [sameRow, exprs])]),
  node "go_statement" (seq [word "go", expr]),
  node "defer_statement" (seq [word "defer", expr]),
  ref ifStatement,
  node "for_statement" (seq [word "for", within .header forHeader, ref block]),
  node "expression_switch_statement" (seq [word "switch", within .header (ref switchRest)]),
  selectRule,
  node "fallthrough_statement" (word "fallthrough"),
  jump "break_statement" "break",
  jump "continue_statement" "continue",
  node "goto_statement" (seq [word "goto", name "label_name"]),
  ref block,
  node "empty_statement" (word ";"),
  node "labeled_statement" (seq [label, ref statement]),
  simpleStatement]

/-- The statements of a block or a case. -/
def statementsRule : R := node "statement_list" (alt [
  seq [separated ended (ref statement), opt (seq [ended, opt emptyLabeled])],
  emptyLabeled])

/-- A block. -/
def blockRule : R := node "block" (inBraces (opt (ref statements)))

/-! ## Files -/

/-- The body of a function, on the row where its head ends. -/
def functionBody : R := opt (seq [sameRow, field "body" (ref block)])

/-- A function. -/
def functionDeclaration : R := node "function_declaration"
  (seq [word "func", field "name" (name "identifier"), opt typeParameters, signature, functionBody])

/-- A method. -/
def methodDeclaration : R := node "method_declaration"
  (seq [word "func", field "receiver" (ref parameters), field "name" (name "field_identifier"),
    signature, functionBody])

/-- An entry of an import declaration. -/
def importSpec : R := node "import_spec" (seq [
  opt (field "name" (alt [
    node "dot" (word "."), nameIn ["_"] "blank_identifier", name "package_identifier"])),
  field "path" quoted])

/-- An import declaration. -/
def importDeclaration : R := node "import_declaration" (seq [word "import", alt [
  node "import_spec_list" (seq [word "(", within .lines (entries importSpec), word ")"]),
  importSpec]])

/-- A package clause. -/
def packageClause : R := node "package_clause" (seq [word "package", name "package_identifier"])

/-- What may stand at the top level. -/
def topLevel : R :=
  alt [packageClause, importDeclaration, functionDeclaration, methodDeclaration, ref statement]

/-- A file. -/
def file : R := entries topLevel

/-- The rule of each symbol. -/
def rules : Nonterminal → R
  | expression => expressionRule
  | type => typeRule
  | literalValue => node "literal_value" literalValueRule
  | parameters => node "parameter_list" (inParens (opt (commaList parameter)))
  | statement => statementRule
  | statements => statementsRule
  | block => blockRule
  | ifStatement => ifRule
  | switchRest => switchRule

end Stopwatch.Go
