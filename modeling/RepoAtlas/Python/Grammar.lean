import RepoAtlas.Python.Rule

/-!
# The grammar of Python

The grammar admits modules of either generation of the language: the `print` and
`exec` statements stand beside assignment expressions, pattern matching and type
parameters. A keyword that only some places expect is a name in all others.

Ranks settle how operators group. They also settle what a text can be at all:
the condition after a comprehension's source belongs to the comprehension, since
a conditional expression ranks lower, and a bracket after the name of a type
opens its type parameters.
-/

namespace RepoAtlas.Python

open Syntax.Expr

/-- A text stands for the token that it spells. -/
local instance : Coe String Expr := ⟨fun s => .token (Token.ofText s)⟩

/-- A rule stands for what it describes. -/
local instance : Coe Rule Expr := ⟨.rule⟩

/-- A token that has no fixed spelling stands for itself. -/
local instance : Coe Token Expr := ⟨.token⟩

/-! ### Ranks -/

namespace Rank

/-- A `lambda` reaches as far as it can. -/
def lambda : Int := -2

/-- A colon in the parameters of a `lambda` ends them. -/
def typedParameter : Int := -1

/-- A conditional expression, below all operators. -/
def conditional : Int := -1

/-- Keywords as names, below everything they may begin as keywords. -/
def keywordName : Int := -3

/-- Operators from the weakest to the strongest. -/
def disjunction : Int := 10

/-- See `disjunction`. -/
def conjunction : Int := 11

/-- See `disjunction`. -/
def negation : Int := 12

/-- See `disjunction`. -/
def comparison : Int := 13

/-- See `disjunction`. -/
def bitOr : Int := 14

/-- See `disjunction`. -/
def bitAnd : Int := 15

/-- See `disjunction`. -/
def bitXor : Int := 16

/-- See `disjunction`. -/
def shift : Int := 17

/-- See `disjunction`. -/
def plus : Int := 18

/-- See `disjunction`. -/
def times : Int := 19

/-- See `disjunction`. -/
def unary : Int := 20

/-- See `disjunction`. -/
def power : Int := 21

/-- See `disjunction`. -/
def call : Int := 22

end Rank

/-! ### Shorthands -/

/-- Once or more often, with commas between. -/
def commaSep1 (e : Expr) : Expr := sepBy1 e ","

/-- A comma that may be left out. -/
def optionalComma : Expr := optional ","

/-- A rank that groups to the left. -/
def left (rank : Int) (e : Expr) : Expr := .ranked rank (some .left) e

/-- A rank that groups to the right. -/
def right (rank : Int) (e : Expr) : Expr := .ranked rank (some .right) e

/-- A rank that groups to neither side. -/
def ranked (rank : Int) (e : Expr) : Expr := .ranked rank none e

/-! ### Statements -/

/-- Modules, and how statements follow one another. A unit of the text ends with
    each statement. -/
def moduleRules : List (Rule × Expr) := [
  (.module, optional Rule.statements),
  (.statements, .choice [.seq [Rule.statements, Rule.statement], Rule.statement]),
  (.statement, .choice [Rule.simpleStatements, Rule.compoundStatement]),
  (.simpleStatements,
    .seq [sepBy1 Rule.simpleStatement ";", optional ";", Token.newline]),
  (.simpleStatement, .choice [
    Rule.futureImportStatement, Rule.importStatement, Rule.importFromStatement,
    Rule.printStatement, Rule.assertStatement, Rule.expressionStatement, Rule.returnStatement,
    Rule.deleteStatement, Rule.raiseStatement, Rule.passStatement, Rule.breakStatement,
    Rule.continueStatement, Rule.globalStatement, Rule.nonlocalStatement, Rule.execStatement,
    Rule.typeAliasStatement]),
  (.compoundStatement, .choice [
    Rule.ifStatement, Rule.forStatement, Rule.whileStatement, Rule.tryStatement,
    Rule.withStatement, Rule.functionDefinition, Rule.classDefinition, Rule.decoratedDefinition,
    Rule.matchStatement]),
  (.suite, .choice [
    .asRule .block Rule.simpleStatements,
    .seq [Token.indent, Rule.block],
    .asRule .block Token.newline]),
  (.block, .seq [optional Rule.statements, Token.dedent])]

/-- Import statements. -/
def importRules : List (Rule × Expr) := [
  (.importStatement, .seq ["import", Rule.importList]),
  (.importPrefix, .many1 "."),
  (.relativeImport, .seq [Rule.importPrefix, optional Rule.dottedName]),
  (.futureImportStatement, .seq [
    "from", "__future__", "import",
    .choice [Rule.importList, .seq ["(", Rule.importList, ")"]]]),
  (.importFromStatement, .seq [
    "from", .role .moduleName (.choice [Rule.relativeImport, Rule.dottedName]), "import",
    .choice [Rule.wildcardImport, Rule.importList, .seq ["(", Rule.importList, ")"]]]),
  (.importList, .seq [
    commaSep1 (.role .name (.choice [Rule.dottedName, Rule.aliasedImport])), optionalComma]),
  (.aliasedImport, .seq [
    .role .name Rule.dottedName, "as", .role .alias Token.identifier]),
  (.wildcardImport, "*"),
  (.dottedName, ranked 1 (sepBy1 Token.identifier "."))]

/-- The other simple statements. -/
def simpleRules : List (Rule × Expr) := [
  (.printStatement, .choice [
    ranked 1 (.seq [
      "print", Rule.chevron, many (.seq [",", Rule.expression]), optionalComma]),
    ranked (-3) (.seq ["print", commaSep1 Rule.expression, optionalComma])]),
  (.chevron, .seq [">>", Rule.expression]),
  (.assertStatement, .seq ["assert", commaSep1 Rule.expression]),
  (.expressionStatement, .choice [
    Rule.expression, .seq [commaSep1 Rule.expression, optionalComma], Rule.assignment,
    Rule.augmentedAssignment, Rule.yield]),
  (.returnStatement, .seq ["return", optional Rule.expressions]),
  (.deleteStatement, .seq ["del", Rule.expressions]),
  (.expressions, .choice [Rule.expression, Rule.expressionList]),
  (.raiseStatement, .seq [
    "raise", optional Rule.expressions, optional (.seq ["from", Rule.expression])]),
  (.passStatement, left 0 "pass"),
  (.breakStatement, left 0 "break"),
  (.continueStatement, left 0 "continue"),
  (.globalStatement, .seq ["global", commaSep1 Token.identifier]),
  (.nonlocalStatement, .seq ["nonlocal", commaSep1 Token.identifier]),
  (.execStatement, .seq [
    "exec", .choice [Rule.string, Token.identifier],
    optional (.seq ["in", commaSep1 Rule.expression])]),
  (.typeAliasStatement, .seq ["type", Rule.typeExpression, "=", Rule.typeExpression])]

/-- Assignments, whose value may be an assignment again. -/
def assignmentRules : List (Rule × Expr) := [
  (.assignment, .seq [
    .role .left Rule.leftHandSide,
    .choice [
      .seq ["=", .role .right Rule.rightHandSide],
      .seq [":", .role .type Rule.typeExpression],
      .seq [":", .role .type Rule.typeExpression, "=", .role .right Rule.rightHandSide]]]),
  (.augmentedAssignment, .seq [
    .role .left Rule.leftHandSide,
    .choice [
      "+=", "-=", "*=", "/=", "@=", "//=", "%=", "**=", ">>=", "<<=", "&=", "^=", "|="],
    .role .right Rule.rightHandSide]),
  (.leftHandSide, .choice [Rule.pattern, Rule.patternList]),
  (.patternList, .seq [
    Rule.pattern,
    .choice [",", .seq [.many1 (.seq [",", Rule.pattern]), optionalComma]]]),
  (.rightHandSide, .choice [
    Rule.expression, Rule.expressionList, Rule.assignment, Rule.augmentedAssignment,
    Rule.patternList, Rule.yield])]

/-- Compound statements. -/
def compoundRules : List (Rule × Expr) := [
  (.ifStatement, .seq [
    "if", Rule.expression, ":", Rule.suite, many Rule.elifClause, optional Rule.elseClause]),
  (.elifClause, .seq ["elif", Rule.expression, ":", Rule.suite]),
  (.elseClause, .seq ["else", ":", Rule.suite]),
  (.matchStatement, .seq [
    "match", commaSep1 Rule.expression, optionalComma, ":", Rule.matchBlock]),
  (.matchBlock, .choice [
    .seq [Token.indent, many Rule.caseClause, Token.dedent], Token.newline]),
  (.caseClause, .seq [
    "case", commaSep1 Rule.casePattern, optionalComma, optional Rule.ifClause, ":", Rule.suite]),
  (.forStatement, .seq [
    optional "async", "for", Rule.leftHandSide, "in", Rule.expressions, ":", Rule.suite,
    optional Rule.elseClause]),
  (.whileStatement, .seq [
    "while", Rule.expression, ":", Rule.suite, optional Rule.elseClause]),
  (.tryStatement, .seq [
    "try", ":", Rule.suite,
    .choice [
      .seq [.many1 Rule.exceptClause, optional Rule.elseClause, optional Rule.finallyClause],
      .seq [.many1 Rule.exceptGroupClause, optional Rule.elseClause, optional Rule.finallyClause],
      Rule.finallyClause]]),
  (.exceptClause, .seq [
    "except",
    optional (.seq [
      Rule.expression, optional (.seq [.choice ["as", ","], Rule.expression])]),
    ":", Rule.suite]),
  (.exceptGroupClause, .seq [
    "except*", Rule.expression, optional (.seq ["as", Rule.expression]), ":", Rule.suite]),
  (.finallyClause, .seq ["finally", ":", Rule.suite]),
  (.withStatement, .seq [optional "async", "with", Rule.withClause, ":", Rule.suite]),
  (.withClause, .choice [
    .seq [commaSep1 Rule.withItem, optionalComma],
    .seq ["(", commaSep1 Rule.withItem, optionalComma, ")"]]),
  (.withItem, Rule.expression)]

/-- Definitions and their parameters. -/
def definitionRules : List (Rule × Expr) := [
  (.functionDefinition, .seq [
    optional "async", "def", .role .name Token.identifier, optional Rule.typeParameters,
    Rule.parameters, optional (.seq ["->", Rule.typeExpression]), ":", .role .body Rule.suite]),
  (.classDefinition, .seq [
    "class", .role .name Token.identifier, optional Rule.typeParameters,
    optional Rule.argumentList, ":", .role .body Rule.suite]),
  (.decoratedDefinition, .seq [
    .many1 Rule.decorator,
    .role .definition (.choice [Rule.classDefinition, Rule.functionDefinition])]),
  (.decorator, .seq ["@", Rule.expression, Token.newline]),
  (.typeParameters, .seq ["[", commaSep1 Rule.typeExpression, optionalComma, "]"]),
  (.parameters, .seq ["(", optional Rule.parameterList, ")"]),
  (.lambdaParameters, Rule.parameterList),
  (.parameterList, .seq [commaSep1 Rule.parameter, optionalComma]),
  (.parameter, .choice [
    Token.identifier, Rule.typedParameter, Rule.defaultParameter, Rule.typedDefaultParameter,
    Rule.listSplatPattern, Rule.tuplePattern, Rule.keywordSeparator, Rule.positionalSeparator,
    Rule.dictionarySplatPattern]),
  (.defaultParameter, .seq [
    .choice [Token.identifier, Rule.tuplePattern], "=", Rule.expression]),
  (.typedParameter, ranked Rank.typedParameter (.seq [
    .choice [Token.identifier, Rule.listSplatPattern, Rule.dictionarySplatPattern], ":",
    Rule.typeExpression])),
  (.typedDefaultParameter, ranked Rank.typedParameter (.seq [
    Token.identifier, ":", Rule.typeExpression, "=", Rule.expression])),
  (.keywordSeparator, "*"),
  (.positionalSeparator, "/")]

/-! ### Patterns -/

/-- The patterns of `case`. -/
def caseRules : List (Rule × Expr) := [
  (.casePattern, ranked 1 (.choice [
    Rule.caseAsPattern, Rule.keywordPattern, Rule.simplePattern])),
  (.simplePattern, ranked 1 (.choice [
    Rule.classPattern, Rule.splatPattern, Rule.unionPattern, Rule.caseListPattern,
    Rule.caseTuplePattern, Rule.dictPattern, Rule.string, Rule.concatenatedString,
    Rule.trueLiteral, Rule.falseLiteral, Rule.noneLiteral,
    .seq [optional "-", .choice [Token.integer, Token.float]],
    Rule.complexPattern, Rule.dottedName, "_"])),
  (.caseAsPattern, .seq [Rule.casePattern, "as", Token.identifier]),
  (.unionPattern, right 0 (.seq [
    Rule.simplePattern, .many1 (left 0 (.seq ["|", Rule.simplePattern]))])),
  (.caseListPattern, .seq [
    "[", optional (.seq [commaSep1 Rule.casePattern, optionalComma]), "]"]),
  (.caseTuplePattern, .seq [
    "(", optional (.seq [commaSep1 Rule.casePattern, optionalComma]), ")"]),
  (.dictPattern, .seq [
    "\x7b",
    optional (.seq [
      commaSep1 (.choice [Rule.keyValuePattern, Rule.splatPattern]), optionalComma]),
    "\x7d"]),
  (.keyValuePattern, .seq [Rule.simplePattern, ":", Rule.casePattern]),
  (.keywordPattern, .seq [Token.identifier, "=", Rule.simplePattern]),
  (.splatPattern, ranked 1 (.seq [.choice ["*", "**"], .choice [Token.identifier, "_"]])),
  (.classPattern, .seq [
    Rule.dottedName, "(", optional (.seq [commaSep1 Rule.casePattern, optionalComma]), ")"]),
  (.complexPattern, ranked 1 (.seq [
    optional "-", .choice [Token.integer, Token.float], .choice ["+", "-"],
    .choice [Token.integer, Token.float]]))]

/-- The targets of assignments and loops. -/
def patternRules : List (Rule × Expr) := [
  (.pattern, .choice [
    Token.identifier, Rule.keywordIdentifier, Rule.subscript, Rule.attribute,
    Rule.listSplatPattern, Rule.tuplePattern, Rule.listPattern]),
  (.patterns, .seq [commaSep1 Rule.pattern, optionalComma]),
  (.tuplePattern, .seq ["(", optional Rule.patterns, ")"]),
  (.listPattern, .seq ["[", optional Rule.patterns, "]"]),
  (.listSplatPattern, .seq [
    "*", .choice [Token.identifier, Rule.keywordIdentifier, Rule.subscript, Rule.attribute]]),
  (.dictionarySplatPattern, .seq [
    "**", .choice [Token.identifier, Rule.keywordIdentifier, Rule.subscript, Rule.attribute]])]

/-! ### Expressions -/

/-- A binary operator between primary expressions. -/
def binary (op : String) (grouped : Expr → Expr) : Expr :=
  grouped (.seq [Rule.primaryExpression, op, Rule.primaryExpression])

/-- Expressions, down to primary ones. -/
def expressionRules : List (Rule × Expr) := [
  (.expression, .choice [
    Rule.comparisonOperator, Rule.notOperator, Rule.booleanOperator, Rule.lambda,
    Rule.primaryExpression, Rule.conditionalExpression, Rule.namedExpression, Rule.asPattern]),
  (.namedExpression, .seq [Rule.namedTarget, ":=", Rule.expression]),
  (.namedTarget, .choice [Token.identifier, Rule.keywordIdentifier]),
  (.expressionList, right 0 (.seq [
    Rule.expression,
    .choice [",", .seq [.many1 (.seq [",", Rule.expression]), optionalComma]]])),
  (.asPattern, left 0 (.seq [Rule.expression, "as", Rule.expression])),
  (.notOperator, ranked Rank.negation (.seq ["not", Rule.expression])),
  (.booleanOperator, .choice [
    left Rank.conjunction (.seq [Rule.expression, "and", Rule.expression]),
    left Rank.disjunction (.seq [Rule.expression, "or", Rule.expression])]),
  (.notIn, .seq ["not", "in"]),
  (.isNot, .seq ["is", "not"]),
  (.comparisonOperator, left Rank.comparison (.seq [
    Rule.primaryExpression,
    .many1 (.seq [
      .choice ["<", "<=", "==", "!=", ">=", ">", "<>", "in", Rule.notIn, "is", Rule.isNot],
      Rule.primaryExpression])])),
  (.lambda, ranked Rank.lambda (.seq [
    "lambda", optional Rule.lambdaParameters, ":", Rule.expression])),
  (.lambdaWithinFor, .seq [
    "lambda", optional Rule.lambdaParameters, ":", Rule.expressionWithinFor]),
  (.expressionWithinFor, .choice [Rule.expression, Rule.lambdaWithinFor]),
  (.conditionalExpression, right Rank.conditional (.seq [
    Rule.expression, "if", Rule.expression, "else", Rule.expression])),
  (.yield, right 0 (.seq [
    "yield", .choice [.seq ["from", Rule.expression], optional Rule.expressions]]))]

/-- Primary expressions. -/
def primaryRules : List (Rule × Expr) := [
  (.primaryExpression, .choice [
    Rule.await, Rule.binaryOperator, Token.identifier, Rule.keywordIdentifier, Rule.string,
    Rule.concatenatedString, Token.integer, Token.float, Rule.trueLiteral, Rule.falseLiteral,
    Rule.noneLiteral, Rule.unaryOperator, Rule.attribute, Rule.subscript, Rule.call, Rule.list,
    Rule.listComprehension, Rule.dictionary, Rule.dictionaryComprehension, Rule.set,
    Rule.setComprehension, Rule.tuple, Rule.parenthesizedExpression, Rule.generatorExpression,
    Rule.ellipsis, Rule.listSplatPattern]),
  (.binaryOperator, .choice [
    binary "+" (left Rank.plus), binary "-" (left Rank.plus), binary "*" (left Rank.times),
    binary "@" (left Rank.times), binary "/" (left Rank.times), binary "%" (left Rank.times),
    binary "//" (left Rank.times), binary "**" (right Rank.power), binary "|" (left Rank.bitOr),
    binary "&" (left Rank.bitAnd), binary "^" (left Rank.bitXor), binary "<<" (left Rank.shift),
    binary ">>" (left Rank.shift)]),
  (.unaryOperator, ranked Rank.unary (.seq [.choice ["+", "-", "~"], Rule.primaryExpression])),
  (.await, ranked Rank.unary (.seq ["await", Rule.primaryExpression])),
  (.attribute, ranked Rank.call (.seq [Rule.primaryExpression, ".", Token.identifier])),
  (.subscript, ranked Rank.call (.seq [
    Rule.primaryExpression, "[", commaSep1 (.choice [Rule.expression, Rule.slice]), optionalComma,
    "]"])),
  (.slice, .seq [
    optional Rule.expression, ":", optional Rule.expression,
    optional (.seq [":", optional Rule.expression])]),
  (.call, ranked Rank.call (.seq [
    Rule.primaryExpression, .choice [Rule.generatorExpression, Rule.argumentList]])),
  (.argumentList, .seq [
    "(",
    optional (commaSep1 (.choice [
      Rule.expression, Rule.listSplat, Rule.dictionarySplat, Rule.parenthesizedListSplat,
      Rule.keywordArgument])),
    optionalComma, ")"]),
  (.keywordArgument, .seq [
    .choice [Token.identifier, Rule.keywordIdentifier], "=", Rule.expression]),
  (.listSplat, .seq ["*", Rule.expression]),
  (.dictionarySplat, .seq ["**", Rule.expression]),
  (.parenthesizedListSplat, ranked 1 (.seq [
    "(", .choice [Rule.parenthesizedListSplat, Rule.listSplat], ")"])),
  (.parenthesizedExpression, ranked 1 (.seq ["(", .choice [Rule.expression, Rule.yield], ")"])),
  (.keywordIdentifier, .choice [
    ranked Rank.keywordName
      (.asToken .identifier (.choice ["print", "exec", "async", "await"])),
    .asToken .identifier (.choice ["type", "match"])])]

/-- Displays and comprehensions. -/
def displayRules : List (Rule × Expr) := [
  (.collectionElements, .seq [
    commaSep1 (.choice [
      Rule.expression, Rule.yield, Rule.listSplat, Rule.parenthesizedListSplat]),
    optionalComma]),
  (.list, .seq ["[", optional Rule.collectionElements, "]"]),
  (.set, .seq ["\x7b", Rule.collectionElements, "\x7d"]),
  (.tuple, .seq ["(", optional Rule.collectionElements, ")"]),
  (.dictionary, .seq [
    "\x7b", optional (commaSep1 (.choice [Rule.pair, Rule.dictionarySplat])), optionalComma,
    "\x7d"]),
  (.pair, .seq [Rule.expression, ":", Rule.expression]),
  (.listComprehension, .seq ["[", Rule.expression, Rule.comprehensionClauses, "]"]),
  (.dictionaryComprehension, .seq ["\x7b", Rule.pair, Rule.comprehensionClauses, "\x7d"]),
  (.setComprehension, .seq ["\x7b", Rule.expression, Rule.comprehensionClauses, "\x7d"]),
  (.generatorExpression, .seq ["(", Rule.expression, Rule.comprehensionClauses, ")"]),
  (.comprehensionClauses, .seq [
    Rule.forInClause, many (.choice [Rule.forInClause, Rule.ifClause])]),
  (.forInClause, left 0 (.seq [
    optional "async", "for", Rule.leftHandSide, "in", commaSep1 Rule.expressionWithinFor,
    optionalComma])),
  (.ifClause, .seq ["if", Rule.expression]),
  (.ellipsis, "..."),
  (.trueLiteral, "True"),
  (.falseLiteral, "False"),
  (.noneLiteral, "None")]

/-! ### Types and strings -/

/-- Types, as they stand behind a colon or an arrow. -/
def typeRules : List (Rule × Expr) := [
  (.typeExpression, .choice [
    ranked 1 Rule.expression, Rule.splatType, Rule.genericType, Rule.unionType,
    Rule.constrainedType, Rule.memberType]),
  (.splatType, ranked 1 (.seq [.choice ["*", "**"], Token.identifier])),
  (.genericType, ranked 1 (.seq [
    .choice [Token.identifier, .asToken .identifier "type"], Rule.typeParameters])),
  (.unionType, left 0 (.seq [Rule.typeExpression, "|", Rule.typeExpression])),
  (.constrainedType, right 0 (.seq [Rule.typeExpression, ":", Rule.typeExpression])),
  (.memberType, .seq [Rule.typeExpression, ".", Token.identifier])]

/-- Strings and what is formatted in them. -/
def stringRules : List (Rule × Expr) := [
  (.string, .seq [
    Token.stringStart, many (.choice [Rule.interpolation, Rule.stringContent]), Token.stringEnd]),
  (.concatenatedString, .seq [Rule.string, .many1 Rule.string]),
  (.stringContent, right 0 (.many1 (.choice [
    Token.doubledBrace, Token.escape, Token.backslash, Token.stringContent]))),
  (.interpolation, .seq [
    "\x7b", Rule.formatExpression, optional "=", optional Token.conversion,
    optional Rule.formatSpecifier, "\x7d"]),
  (.formatExpression, .choice [
    Rule.expression, Rule.expressionList, Rule.patternList, Rule.yield]),
  (.formatSpecifier, .seq [":", many (.choice [Token.formatText, Rule.interpolation])])]

/-- All rules. -/
def rules : List (Rule × Expr) :=
  moduleRules ++ importRules ++ simpleRules ++ assignmentRules ++ compoundRules ++
    definitionRules ++ caseRules ++ patternRules ++ expressionRules ++ primaryRules ++
    displayRules ++ typeRules ++ stringRules

/-- The rules that are written out where they are named. -/
def inlinedRules : List Rule := [
  .simpleStatement, .compoundStatement, .suite, .expressions, .leftHandSide, .keywordIdentifier]

/-- The rules without nodes of their own. -/
def hiddenRules : List Rule := inlinedRules ++ [
  .statements, .statement, .simpleStatements, .importList, .namedTarget, .matchBlock,
  .parameterList, .parameter, .simplePattern, .caseAsPattern, .caseListPattern, .caseTuplePattern,
  .keyValuePattern, .pattern, .patterns, .rightHandSide, .expression, .primaryExpression, .notIn,
  .isNot, .expressionWithinFor, .collectionElements, .comprehensionClauses, .formatExpression]

end RepoAtlas.Python
