import RepoAtlas.Python.Token
import RepoAtlas.Syntax.Grammar
import RepoAtlas.Syntax.Tree

/-!
# Rules of the grammar of Python

The names of the rules, and the roles that parts have in a node.
-/

namespace RepoAtlas.Python

/-- The rules of the grammar. -/
inductive Rule where
  | module
  | statements
  | statement
  | simpleStatements
  | simpleStatement
  | compoundStatement
  | importStatement
  | importPrefix
  | relativeImport
  | futureImportStatement
  | importFromStatement
  | importList
  | aliasedImport
  | wildcardImport
  | printStatement
  | chevron
  | assertStatement
  | expressionStatement
  | namedExpression
  | namedTarget
  | returnStatement
  | deleteStatement
  | expressions
  | raiseStatement
  | passStatement
  | breakStatement
  | continueStatement
  | globalStatement
  | nonlocalStatement
  | execStatement
  | typeAliasStatement
  | ifStatement
  | elifClause
  | elseClause
  | matchStatement
  | matchBlock
  | caseClause
  | forStatement
  | whileStatement
  | tryStatement
  | exceptClause
  | exceptGroupClause
  | finallyClause
  | withStatement
  | withClause
  | withItem
  | functionDefinition
  | classDefinition
  | decoratedDefinition
  | decorator
  | typeParameters
  | parameters
  | lambdaParameters
  | parameterList
  | parameter
  | defaultParameter
  | typedParameter
  | typedDefaultParameter
  | keywordSeparator
  | positionalSeparator
  | suite
  | block
  | dottedName
  | casePattern
  | simplePattern
  | caseAsPattern
  | unionPattern
  | caseListPattern
  | caseTuplePattern
  | dictPattern
  | keyValuePattern
  | keywordPattern
  | splatPattern
  | classPattern
  | complexPattern
  | pattern
  | patterns
  | patternList
  | tuplePattern
  | listPattern
  | listSplatPattern
  | dictionarySplatPattern
  | leftHandSide
  | rightHandSide
  | assignment
  | augmentedAssignment
  | expression
  | expressionList
  | primaryExpression
  | asPattern
  | notOperator
  | booleanOperator
  | binaryOperator
  | unaryOperator
  | notIn
  | isNot
  | comparisonOperator
  | lambda
  | lambdaWithinFor
  | expressionWithinFor
  | conditionalExpression
  | await
  | yield
  | attribute
  | subscript
  | slice
  | call
  | argumentList
  | keywordArgument
  | listSplat
  | dictionarySplat
  | parenthesizedListSplat
  | parenthesizedExpression
  | collectionElements
  | list
  | set
  | tuple
  | dictionary
  | pair
  | listComprehension
  | dictionaryComprehension
  | setComprehension
  | generatorExpression
  | comprehensionClauses
  | forInClause
  | ifClause
  | ellipsis
  | trueLiteral
  | falseLiteral
  | noneLiteral
  | typeExpression
  | splatType
  | genericType
  | unionType
  | constrainedType
  | memberType
  | string
  | concatenatedString
  | stringContent
  | interpolation
  | formatExpression
  | formatSpecifier
  | keywordIdentifier
  deriving DecidableEq, Repr

/-- The roles of the parts that the outline of a module is read from. -/
inductive Role where
  | name
  | body
  | definition
  | left
  | right
  | type
  | moduleName
  | alias
  deriving DecidableEq, Repr

/-- A right-hand side over the tokens and rules of Python. -/
abbrev Expr := Syntax.Expr Token Rule Role

/-- A node of the syntax tree of a module. -/
abbrev Node := Syntax.Node Token Rule Role

end RepoAtlas.Python
