import ModelAtlas.Source.Grammar.Statements

/-!
# Expressions

The rules for parameters, targets of assignments, expressions, types and strings, and with them the
whole grammar. A higher level binds closer: lambdas -2, conditions -1, `or` 10, `and` 11, `not` 12,
comparisons 13, `|` 14, `&` 15, `^` 16, shifts 17, sums 18, products 19, signs 20, powers 21, calls
and attributes 22.
-/

namespace ModelAtlas.Source.Grammar

open Rule Terminal

/-- Parameters of functions, and targets of assignments. -/
def targets : List Definition := [
  ⟨.parameterList, "_parameters", commaList (.ref .parameter)⟩,
  ⟨.patterns, "_patterns", commaList (.ref .pattern)⟩,
  ⟨.parameter, "parameter", oneOf [identifier, .ref .typedParameter, .ref .defaultParameter,
    .ref .typedDefaultParameter, .ref .listSplatPattern, .ref .tuplePattern,
    .ref .keywordSeparator, .ref .positionalSeparator, .ref .dictionarySplatPattern]⟩,
  ⟨.pattern, "pattern", oneOf [identifier, .ref .keywordIdentifier, .ref .subscript,
    .ref .attributeAccess, .ref .listSplatPattern, .ref .tuplePattern, .ref .listPattern]⟩,
  ⟨.tuplePattern, "tuple_pattern", all [openParen, opt (.ref .patterns), closeParen]⟩,
  ⟨.listPattern, "list_pattern", all [openBracket, opt (.ref .patterns), closeBracket]⟩,
  ⟨.defaultParameter, "default_parameter", all [
    .field .name (.alt identifier (.ref .tuplePattern)), equal,
    .field .value (.ref .expression)]⟩,
  ⟨.typedDefaultParameter, "typed_default_parameter", atLevel (-1) [.field .name identifier, colon,
    .field .type (.ref .type), equal, .field .value (.ref .expression)]⟩,
  ⟨.listSplatPattern, "list_splat_pattern", all [star, oneOf [identifier, .ref .keywordIdentifier,
    .ref .subscript, .ref .attributeAccess]]⟩,
  ⟨.dictionarySplatPattern, "dictionary_splat_pattern", all [doubleStar, oneOf [identifier,
    .ref .keywordIdentifier, .ref .subscript, .ref .attributeAccess]]⟩,
  ⟨.asPattern, "as_pattern", leftAt 0 [.ref .expression, asWord,
    .field .alias (.as .asPatternTarget (.ref .expression))]⟩]

/-- An operator between two operands. -/
def binary (side : Side) (level : Int) (operator : Terminal) : Rule :=
  .level level (some side) (all [.field .left (.ref .primaryExpression),
    .field .operator operator, .field .right (.ref .primaryExpression)])

/-- Expressions with operators. -/
def operators : List Definition := [
  ⟨.expressionWithinForIn, "_expression_within_for_in_clause", .alt (.ref .expression)
    (.as .lambda (.ref .lambdaWithinForIn))⟩,
  ⟨.expression, "expression", oneOf [.ref .comparisonOperator, .ref .notOperator,
    .ref .booleanOperator, .ref .lambda, .ref .primaryExpression,
    .ref .conditionalExpression, .ref .namedExpression, .ref .asPattern]⟩,
  ⟨.primaryExpression, "primary_expression", oneOf [.ref .await, .ref .binaryOperator, identifier,
    .ref .keywordIdentifier, .ref .string, .ref .concatenatedString, integer,
    float, trueWord, falseWord, noneWord, .ref .unaryOperator,
    .ref .attributeAccess, .ref .subscript, .ref .call, .ref .list, .ref .listComprehension,
    .ref .dictionary, .ref .dictionaryComprehension, .ref .set, .ref .setComprehension,
    .ref .tuple, .ref .parenthesizedExpression, .ref .generatorExpression,
    ellipsis, .as .listSplat (.ref .listSplatPattern)]⟩,
  ⟨.notOperator, "not_operator", atLevel 12 [notWord, .field .argument (.ref .expression)]⟩,
  ⟨.booleanOperator, "boolean_operator", .alt
    (leftAt 11 [.field .left (.ref .expression), .field .operator andWord,
      .field .right (.ref .expression)])
    (leftAt 10 [.field .left (.ref .expression), .field .operator orWord,
      .field .right (.ref .expression)])⟩,
  ⟨.binaryOperator, "binary_operator", oneOf [binary .left 18 plus, binary .left 18 minus, binary .left 19 star,
    binary .left 19 atSign, binary .left 19 slash, binary .left 19 percent, binary .left 19 doubleSlash,
    binary .right 21 doubleStar, binary .left 14 pipe, binary .left 15 ampersand, binary .left 16 caret,
    binary .left 17 shiftLeft, binary .left 17 shiftRight]⟩,
  ⟨.unaryOperator, "unary_operator", atLevel 20 [.field .operator (oneOf [plus, minus, tilde]),
    .field .argument (.ref .primaryExpression)]⟩,
  ⟨.notIn, "_not_in", all [notWord, inWord]⟩,
  ⟨.isNot, "_is_not", all [isWord, notWord]⟩,
  ⟨.comparisonOperator, "comparison_operator", leftAt 13 [.ref .primaryExpression, .many1 (all [
    .field .operators (oneOf [less, lessEqual, doubleEqual, notEqual, greaterEqual, greater, lessGreater, inWord,
      .as .notIn (.ref .notIn), isWord, .as .isNot (.ref .isNot)]),
    .ref .primaryExpression])]⟩,
  ⟨.lambda, "lambda", atLevel (-2) [lambdaWord,
    .field .parameters (opt (.ref .lambdaParameters)), colon,
    .field .body (.ref .expression)]⟩,
  ⟨.lambdaWithinForIn, "lambda_within_for_in_clause", all [lambdaWord,
    .field .parameters (opt (.ref .lambdaParameters)), colon,
    .field .body (.ref .expressionWithinForIn)]⟩]

/-- Assignments, and what stands on their sides. -/
def assignments : List Definition := [
  ⟨.assignment, "assignment", all [.field .left (.ref .leftHandSide), oneOf [
    all [equal, .field .right (.ref .rightHandSide)],
    all [colon, .field .type (.ref .type)],
    all [colon, .field .type (.ref .type), equal, .field .right (.ref .rightHandSide)]]]⟩,
  ⟨.augmentedAssignment, "augmented_assignment", all [.field .left (.ref .leftHandSide),
    .field .operator (oneOf [plusEqual, minusEqual, starEqual, slashEqual, atEqual, doubleSlashEqual, percentEqual, doubleStarEqual, shiftRightEqual, shiftLeftEqual,
      ampersandEqual, caretEqual, pipeEqual]),
    .field .right (.ref .rightHandSide)]⟩,
  ⟨.leftHandSide, "_left_hand_side", .alt (.ref .pattern) (.ref .patternList)⟩,
  ⟨.patternList, "pattern_list", all [.ref .pattern,
    .alt comma (all [.many1 (all [comma, .ref .pattern]), opt comma])]⟩,
  ⟨.rightHandSide, "_right_hand_side", oneOf [.ref .expression, .ref .expressionList, .ref .assignment,
    .ref .augmentedAssignment, .ref .patternList, .ref .yield]⟩,
  ⟨.yield, "yield", rightAt 0 [yieldWord,
    .alt (all [fromWord, .ref .expression]) (opt (.ref .expressions))]⟩]

/-- Names, attributes, subscripts, calls and types. -/
def accesses : List Definition := [
  ⟨.attributeAccess, "attribute", atLevel 22 [.field .object (.ref .primaryExpression), dot,
    .field .member identifier]⟩,
  ⟨.subscript, "subscript", atLevel 22 [.field .value (.ref .primaryExpression), openBracket,
    commaSep (.field .subscript (.alt (.ref .expression) (.ref .slice))), opt comma, closeBracket]⟩,
  ⟨.slice, "slice", all [opt (.ref .expression), colon, opt (.ref .expression),
    opt (all [colon, opt (.ref .expression)])]⟩,
  ⟨.call, "call", atLevel 22 [.field .function (.ref .primaryExpression),
    .field .arguments (.alt (.ref .generatorExpression) (.ref .argumentList))]⟩,
  ⟨.typedParameter, "typed_parameter", atLevel (-1) [oneOf [identifier, .ref .listSplatPattern,
    .ref .dictionarySplatPattern], colon, .field .type (.ref .type)]⟩,
  ⟨.type, "type", oneOf [atLevel 1 [.ref .expression], .ref .splatType, .ref .genericType,
    .ref .unionType, .ref .constrainedType, .ref .memberType]⟩,
  ⟨.splatType, "splat_type", atLevel 1 [.alt star doubleStar, identifier]⟩,
  ⟨.genericType, "generic_type", atLevel 1 [.alt identifier (.as .identifier typeWord),
    .ref .typeParameter]⟩,
  ⟨.unionType, "union_type", leftAt 0 [.ref .type, pipe, .ref .type]⟩,
  ⟨.constrainedType, "constrained_type", rightAt 0 [.ref .type, colon, .ref .type]⟩,
  ⟨.memberType, "member_type", all [.ref .type, dot, identifier]⟩,
  ⟨.keywordArgument, "keyword_argument", all [
    .field .name (.alt identifier (.ref .keywordIdentifier)), equal,
    .field .value (.ref .expression)]⟩]

/-- Displays, comprehensions and parentheses. -/
def displays : List Definition := [
  ⟨.list, "list", all [openBracket, opt (.ref .collectionElements), closeBracket]⟩,
  ⟨.set, "set", all [openBrace, .ref .collectionElements, closeBrace]⟩,
  ⟨.tuple, "tuple", all [openParen, opt (.ref .collectionElements), closeParen]⟩,
  ⟨.dictionary, "dictionary", all [openBrace, opt (commaSep (.alt (.ref .pair) (.ref .dictionarySplat))),
    opt comma, closeBrace]⟩,
  ⟨.pair, "pair", all [.field .key (.ref .expression), colon,
    .field .value (.ref .expression)]⟩,
  ⟨.listComprehension, "list_comprehension", all [openBracket, .field .body (.ref .expression),
    .ref .comprehensionClauses, closeBracket]⟩,
  ⟨.dictionaryComprehension, "dictionary_comprehension", all [openBrace, .field .body (.ref .pair),
    .ref .comprehensionClauses, closeBrace]⟩,
  ⟨.setComprehension, "set_comprehension", all [openBrace, .field .body (.ref .expression),
    .ref .comprehensionClauses, closeBrace]⟩,
  ⟨.generatorExpression, "generator_expression", all [openParen, .field .body (.ref .expression),
    .ref .comprehensionClauses, closeParen]⟩,
  ⟨.comprehensionClauses, "_comprehension_clauses", all [.ref .forInClause,
    many (.alt (.ref .forInClause) (.ref .ifClause))]⟩,
  ⟨.parenthesizedExpression, "parenthesized_expression", atLevel 1 [openParen, .alt (.ref .expression) (.ref .yield),
    closeParen]⟩,
  ⟨.collectionElements, "_collection_elements", commaList (oneOf [.ref .expression, .ref .yield,
    .ref .listSplat, .ref .parenthesizedListSplat])⟩,
  ⟨.forInClause, "for_in_clause", leftAt 0 [opt asyncWord, forWord, .field .left (.ref .leftHandSide),
    inWord, .field .right (commaSep (.ref .expressionWithinForIn)), opt comma]⟩,
  ⟨.ifClause, "if_clause", all [ifWord, .ref .expression]⟩,
  ⟨.conditionalExpression, "conditional_expression", rightAt (-1) [.ref .expression, ifWord, .ref .expression,
    elseWord, .ref .expression]⟩]

/-- Strings, numbers, constants, and the words that may be names. -/
def atoms : List Definition := [
  ⟨.concatenatedString, "concatenated_string", all [.ref .string, .many1 (.ref .string)]⟩,
  ⟨.string, "string", all [stringStart,
    many (.alt (.ref .interpolation) (.ref .stringContent)), stringEnd]⟩,
  ⟨.stringContent, "string_content", rightAt 0 [.many1 (oneOf [doubledBrace,
    escape, backslash, stringText])]⟩,
  ⟨.interpolation, "interpolation", all [openBrace, .field .expression (.ref .replacedExpression), opt equal,
    opt (.field .typeConversion conversion),
    opt (.field .formatSpecifier (.ref .formatSpecifier)), closeBrace]⟩,
  ⟨.replacedExpression, "_f_expression", oneOf [.ref .expression, .ref .expressionList, .ref .patternList,
    .ref .yield]⟩,
  ⟨.formatSpecifier, "format_specifier", all [colon, many (.alt
    formatText
    (.as .formatExpression (.ref .interpolation)))]⟩,
  ⟨.keywordIdentifier, "keyword_identifier", .alt
    (atLevel (-3) [.as .identifier (oneOf [printWord, execWord, asyncWord, awaitWord])])
    (.as .identifier (.alt typeWord matchWord))⟩,
  ⟨.await, "await", atLevel 20 [awaitWord, .ref .primaryExpression]⟩,
  ⟨.positionalSeparator, "positional_separator", slash⟩,
  ⟨.keywordSeparator, "keyword_separator", star⟩]

/-- The grammar of source files. -/
def sourceRules : RuleBook where
  start := .source
  definitions :=
    statements ++ targets ++ operators ++ assignments ++ accesses ++ displays ++ atoms
  inlined := [.simpleStatement, .compoundStatement, .suite, .expressions, .leftHandSide,
    .keywordIdentifier]
  groups := [.simpleStatement, .compoundStatement, .expression, .primaryExpression, .pattern,
    .parameter]

end ModelAtlas.Source.Grammar
