import ModelAtlas.Source.Grammar.Rule

/-!
# Statements

The rules for modules, simple statements, statements with a body, and the patterns of `case`.
Levels of binding are numbered as in `Expressions`; without a level a rule stands at zero.
-/

namespace ModelAtlas.Source.Grammar

open Rule Terminal

/-- `import` and `from`. -/
def imports : List Definition := [
  ⟨.importStatement, "import_statement", all [importWord, .ref .importList]⟩,
  ⟨.importPrefix, "import_prefix", .many1 dot⟩,
  ⟨.relativeImport, "relative_import", all [.ref .importPrefix, opt (.ref .dottedName)]⟩,
  ⟨.futureImportStatement, "future_import_statement", all [fromWord, futureWord, importWord,
    .alt (.ref .importList) (all [openParen, .ref .importList, closeParen])]⟩,
  ⟨.importFromStatement, "import_from_statement", all [fromWord,
    .field .moduleName (.alt (.ref .relativeImport) (.ref .dottedName)), importWord,
    oneOf [.ref .wildcardImport, .ref .importList, all [openParen, .ref .importList, closeParen]]]⟩,
  ⟨.importList, "_import_list", commaList (.field .name (.alt (.ref .dottedName)
    (.ref .aliasedImport)))⟩,
  ⟨.aliasedImport, "aliased_import", all [.field .name (.ref .dottedName), asWord,
    .field .alias identifier]⟩,
  ⟨.wildcardImport, "wildcard_import", star⟩]

/-- Statements that take one row. -/
def simpleStatements : List Definition := [
  ⟨.printStatement, "print_statement", .alt
    (atLevel 1 [printWord, .ref .chevron, many (all [comma, .field .argument (.ref .expression)]),
      opt comma])
    (atLevel (-3) [.dynamic (-1) (all [printWord,
      commaSep (.field .argument (.ref .expression)), opt comma])])⟩,
  ⟨.chevron, "chevron", all [shiftRight, .ref .expression]⟩,
  ⟨.assertStatement, "assert_statement", all [assertWord, commaSep (.ref .expression)]⟩,
  ⟨.expressionStatement, "expression_statement", oneOf [.ref .expression, commaList (.ref .expression),
    .ref .assignment, .ref .augmentedAssignment, .ref .yield]⟩,
  ⟨.namedExpression, "named_expression", all [.field .name (.ref .namedExpressionTarget), walrus,
    .field .value (.ref .expression)]⟩,
  ⟨.namedExpressionTarget, "_named_expression_lhs", .alt identifier (.ref .keywordIdentifier)⟩,
  ⟨.returnStatement, "return_statement", all [returnWord, opt (.ref .expressions)]⟩,
  ⟨.deleteStatement, "delete_statement", all [delWord, .ref .expressions]⟩,
  ⟨.expressions, "_expressions", .alt (.ref .expression) (.ref .expressionList)⟩,
  ⟨.raiseStatement, "raise_statement", all [raiseWord, opt (.ref .expressions),
    opt (all [fromWord, .field .cause (.ref .expression)])]⟩,
  ⟨.passStatement, "pass_statement", leftAt 0 [passWord]⟩,
  ⟨.breakStatement, "break_statement", leftAt 0 [breakWord]⟩,
  ⟨.continueStatement, "continue_statement", leftAt 0 [continueWord]⟩]

/-- Statements with bodies, up to functions. -/
def compoundStatements : List Definition := [
  ⟨.compoundStatement, "_compound_statement", oneOf [.ref .ifStatement, .ref .forStatement,
    .ref .whileStatement, .ref .tryStatement, .ref .withStatement,
    .ref .functionDefinition, .ref .classDefinition, .ref .decoratedDefinition,
    .ref .matchStatement]⟩,
  ⟨.ifStatement, "if_statement", all [ifWord, .field .condition (.ref .expression), colon,
    .field .consequence (.ref .suite), many (.field .alternative (.ref .elifClause)),
    opt (.field .alternative (.ref .elseClause))]⟩,
  ⟨.elifClause, "elif_clause", all [elifWord, .field .condition (.ref .expression), colon,
    .field .consequence (.ref .suite)]⟩,
  ⟨.elseClause, "else_clause", all [elseWord, colon, .field .body (.ref .suite)]⟩,
  ⟨.matchStatement, "match_statement", all [matchWord, commaSep (.field .subject (.ref .expression)), opt comma,
    colon, .field .body (.as .block (.ref .matchBlock))]⟩,
  ⟨.matchBlock, "_match_block", .alt
    (all [indent, many (.field .alternative (.ref .caseClause)), dedent])
    newline⟩,
  ⟨.caseClause, "case_clause", all [caseWord, commaSep (.ref .casePattern), opt comma,
    opt (.field .guard (.ref .ifClause)), colon, .field .consequence (.ref .suite)]⟩,
  ⟨.forStatement, "for_statement", all [opt asyncWord, forWord, .field .left (.ref .leftHandSide), inWord,
    .field .right (.ref .expressions), colon, .field .body (.ref .suite),
    .field .alternative (opt (.ref .elseClause))]⟩,
  ⟨.whileStatement, "while_statement", all [whileWord, .field .condition (.ref .expression), colon,
    .field .body (.ref .suite), opt (.field .alternative (.ref .elseClause))]⟩,
  ⟨.tryStatement, "try_statement", all [tryWord, colon, .field .body (.ref .suite), oneOf [
    all [.many1 (.ref .exceptClause), opt (.ref .elseClause), opt (.ref .finallyClause)],
    all [.many1 (.ref .exceptGroupClause), opt (.ref .elseClause),
      opt (.ref .finallyClause)],
    .ref .finallyClause]]⟩,
  ⟨.exceptClause, "except_clause", all [exceptWord, opt (all [.field .value (.ref .expression),
    opt (all [.alt asWord comma, .field .alias (.ref .expression)])]), colon, .ref .suite]⟩,
  ⟨.exceptGroupClause, "except_group_clause", all [exceptStar,
    all [.ref .expression, opt (all [asWord, .ref .expression])], colon, .ref .suite]⟩,
  ⟨.finallyClause, "finally_clause", all [finallyWord, colon, .ref .suite]⟩,
  ⟨.withStatement, "with_statement", all [opt asyncWord, withWord, .ref .withClause, colon,
    .field .body (.ref .suite)]⟩,
  ⟨.withClause, "with_clause", .alt (commaList (.ref .withItem))
    (all [openParen, commaSep (.ref .withItem), opt comma, closeParen])⟩,
  ⟨.withItem, "with_item", .dynamic 1 (.field .value (.ref .expression))⟩,
  ⟨.functionDefinition, "function_definition", all [opt asyncWord, defWord, .field .name identifier,
    .field .typeParameters (opt (.ref .typeParameter)),
    .field .parameters (.ref .parameters),
    opt (all [arrow, .field .returnType (.ref .type)]), colon, .field .body (.ref .suite)]⟩,
  ⟨.parameters, "parameters", all [openParen, opt (.ref .parameterList), closeParen]⟩,
  ⟨.lambdaParameters, "lambda_parameters", .ref .parameterList⟩]

/-- Statements that name things, classes, decorators and bodies. -/
def declarations : List Definition := [
  ⟨.listSplat, "list_splat", all [star, .ref .expression]⟩,
  ⟨.dictionarySplat, "dictionary_splat", all [doubleStar, .ref .expression]⟩,
  ⟨.globalStatement, "global_statement", all [globalWord, commaSep identifier]⟩,
  ⟨.nonlocalStatement, "nonlocal_statement", all [nonlocalWord, commaSep identifier]⟩,
  ⟨.execStatement, "exec_statement", all [execWord, .field .code (.alt (.ref .string) identifier),
    opt (all [inWord, commaSep (.ref .expression)])]⟩,
  ⟨.typeAliasStatement, "type_alias_statement", .dynamic 1 (all [typeWord, .field .left (.ref .type), equal,
    .field .right (.ref .type)])⟩,
  ⟨.classDefinition, "class_definition", all [classWord, .field .name identifier,
    .field .typeParameters (opt (.ref .typeParameter)),
    .field .superclasses (opt (.ref .argumentList)), colon, .field .body (.ref .suite)]⟩,
  ⟨.typeParameter, "type_parameter", all [openBracket, commaSep (.ref .type), opt comma, closeBracket]⟩,
  ⟨.parenthesizedListSplat, "parenthesized_list_splat", atLevel 1 [openParen,
    .alt (.as .parenthesized (.ref .parenthesizedListSplat)) (.ref .listSplat), closeParen]⟩,
  ⟨.argumentList, "argument_list", all [openParen, opt (commaSep (oneOf [.ref .expression, .ref .listSplat,
    .ref .dictionarySplat, .as .parenthesized (.ref .parenthesizedListSplat),
    .ref .keywordArgument])), opt comma, closeParen]⟩,
  ⟨.decoratedDefinition, "decorated_definition", all [.many1 (.ref .decorator),
    .field .definition (.alt (.ref .classDefinition) (.ref .functionDefinition))]⟩,
  ⟨.decorator, "decorator", all [atSign, .ref .expression, newline]⟩,
  ⟨.suite, "_suite", oneOf [.as .block (.ref .simpleStatements),
    all [indent, .ref .block], .as .block newline]⟩,
  ⟨.block, "block", all [many (.ref .statement), dedent]⟩,
  ⟨.expressionList, "expression_list", rightAt 0 [.ref .expression,
    .alt comma (all [.many1 (all [comma, .ref .expression]), opt comma])]⟩,
  ⟨.dottedName, "dotted_name", atLevel 1 [sepBy dot identifier]⟩]

/-- What may follow `case`. -/
def casePatterns : List Definition := [
  ⟨.casePattern, "case_pattern", atLevel 1 [oneOf [.as .asPattern (.ref .caseAsPattern),
    .ref .keywordPattern, .ref .simplePattern]]⟩,
  ⟨.simplePattern, "_simple_pattern", atLevel 1 [oneOf [.ref .classPattern, .ref .splatPattern,
    .ref .unionPattern, .as .listPattern (.ref .caseListPattern),
    .as .tuplePattern (.ref .caseTuplePattern), .ref .dictPattern, .ref .string,
    .ref .concatenatedString, trueWord, falseWord, noneWord,
    all [opt minus, .alt integer float], .ref .complexPattern,
    .ref .dottedName, underscore]]⟩,
  ⟨.caseAsPattern, "_as_pattern", all [.ref .casePattern, asWord, identifier]⟩,
  ⟨.unionPattern, "union_pattern", rightAt 0 [.ref .simplePattern,
    .many1 (leftAt 0 [pipe, .ref .simplePattern])]⟩,
  ⟨.caseListPattern, "_list_pattern", all [openBracket, opt (commaList (.ref .casePattern)), closeBracket]⟩,
  ⟨.caseTuplePattern, "_tuple_pattern", all [openParen, opt (commaList (.ref .casePattern)), closeParen]⟩,
  ⟨.dictPattern, "dict_pattern", all [openBrace,
    opt (commaList (.alt (.ref .keyValuePattern) (.ref .splatPattern))), closeBrace]⟩,
  ⟨.keyValuePattern, "_key_value_pattern", all [.field .key (.ref .simplePattern), colon,
    .field .value (.ref .casePattern)]⟩,
  ⟨.keywordPattern, "keyword_pattern", all [identifier, equal, .ref .simplePattern]⟩,
  ⟨.splatPattern, "splat_pattern", atLevel 1 [.alt star doubleStar, .alt identifier underscore]⟩,
  ⟨.classPattern, "class_pattern", all [.ref .dottedName, openParen, opt (commaList (.ref .casePattern)),
    closeParen]⟩,
  ⟨.complexPattern, "complex_pattern", atLevel 1 [opt minus, .alt integer float,
    .alt plus minus, .alt integer float]⟩]

def statements : List Definition := [
  ⟨.source, "module", many (.ref .statement)⟩,
  ⟨.statement, "_statement", .alt (.ref .simpleStatements) (.ref .compoundStatement)⟩,
  ⟨.simpleStatements, "_simple_statements", all [sepBy semicolon (.ref .simpleStatement), opt semicolon,
    newline]⟩,
  ⟨.simpleStatement, "_simple_statement", oneOf [.ref .futureImportStatement, .ref .importStatement,
    .ref .importFromStatement, .ref .printStatement, .ref .assertStatement,
    .ref .expressionStatement, .ref .returnStatement, .ref .deleteStatement,
    .ref .raiseStatement, .ref .passStatement, .ref .breakStatement,
    .ref .continueStatement, .ref .globalStatement, .ref .nonlocalStatement,
    .ref .execStatement, .ref .typeAliasStatement]⟩]
  ++ imports ++ simpleStatements ++ compoundStatements ++ declarations ++ casePatterns

end ModelAtlas.Source.Grammar
