/-!
# Grammar rules

A grammar is a list of definitions. A rule says which sequences of symbols make up a node, which of
them carry a field name, under which kind a part appears in the tree, and how to decide between two
readings: by level and associativity while reading, by dynamic level among finished readings.

Terminals and rules have names, so that a grammar cannot refer to what it does not define. Terminals
are numbered in the order in which they are listed.
-/

namespace ModelAtlas.Source.Grammar

/-! ### Terminals -/

inductive Terminal where
  | endOfSource | identifier | semicolon | importWord | dot | fromWord | futureWord | openParen
  | closeParen | comma | asWord | star | printWord | shiftRight | assertWord | walrus | returnWord
  | delWord | raiseWord | passWord | breakWord | continueWord | ifWord | colon | elifWord
  | elseWord | matchWord | caseWord | asyncWord | forWord | inWord | whileWord | tryWord
  | exceptWord | exceptStar | finallyWord | withWord | defWord | arrow | doubleStar | globalWord
  | nonlocalWord | execWord | typeWord | equal | classWord | openBracket | closeBracket | atSign
  | minus | underscore | pipe | openBrace | closeBrace | plus | notWord | andWord | orWord | slash
  | percent | doubleSlash | ampersand | caret | shiftLeft | tilde | isWord | less | lessEqual
  | doubleEqual | notEqual | greaterEqual | greater | lessGreater | lambdaWord | plusEqual
  | minusEqual | starEqual | slashEqual | atEqual | doubleSlashEqual | percentEqual
  | doubleStarEqual | shiftRightEqual | shiftLeftEqual | ampersandEqual | caretEqual | pipeEqual
  | yieldWord | ellipsis | escape | backslash | formatText | conversion | integer | float
  | awaitWord | trueWord | falseWord | noneWord | comment | joint | newline | indent | dedent
  | stringStart | stringText | doubledBrace | stringEnd
deriving DecidableEq, Repr

/-- How a terminal is recognised in the text. -/
inductive Pattern where
  | endOfSource
  /-- An operator or a bracket. -/
  | sign (spelling : String)
  /-- A word that would otherwise be an identifier. -/
  | keyword (spelling : String)
  | identifier
  | integer
  | float
  | comment
  /-- A backslash in front of a line break. -/
  | joint
  /-- A backslash in a string, with the characters it gives a meaning to. -/
  | escape
  /-- A backslash in a string that gives no meaning to what follows. -/
  | backslash
  /-- Text of a format in a replacement field. -/
  | formatText
  /-- A conversion in a replacement field. -/
  | conversion
  | newline
  | indent
  | dedent
  | stringStart
  | stringText
  /-- A doubled brace in a string with replacement fields. -/
  | doubledBrace
  | stringEnd
deriving DecidableEq, Repr

namespace Pattern

/-- Terminals that depend on indentation or on the string they stand in. -/
def isLayout : Pattern → Bool
  | .newline | .indent | .dedent | .stringStart | .stringText | .doubledBrace | .stringEnd => true
  | _ => false

/-- Whether it has a fixed spelling. -/
def isSign : Pattern → Bool
  | .sign _ => true
  | _ => false

def isKeyword : Pattern → Bool
  | .keyword _ => true
  | _ => false

/-- Terminals before which no white space is skipped. -/
def isImmediate : Pattern → Bool
  | .escape | .backslash => true
  | _ => false

end Pattern

/-- How a terminal is recognised, and how it appears in the tree. -/
structure Form where
  kind : String
  pattern : Pattern
  /-- Whether its nodes count as named. -/
  named : Bool := false
  /-- Whether it appears in the tree. -/
  shown : Bool := true
deriving DecidableEq, Repr

namespace Form

def sign (spelling : String) : Form := { kind := spelling, pattern := .sign spelling }

def word (spelling : String) : Form := { kind := spelling, pattern := .keyword spelling }

/-- A terminal that is a node of its own. -/
def node (kind : String) (pattern : Pattern) : Form :=
  { kind := kind, pattern := pattern, named := true }

/-- A terminal that does not appear in the tree. -/
def silent (kind : String) (pattern : Pattern) : Form :=
  { kind := kind, pattern := pattern, named := true, shown := false }

end Form

namespace Terminal

open Form in
def form : Terminal → Form
  | .endOfSource => silent "_end" .endOfSource
  | .identifier => node "identifier" .identifier
  | .semicolon => sign ";"
  | .importWord => word "import"
  | .dot => sign "."
  | .fromWord => word "from"
  | .futureWord => word "__future__"
  | .openParen => sign "("
  | .closeParen => sign ")"
  | .comma => sign ","
  | .asWord => word "as"
  | .star => sign "*"
  | .printWord => word "print"
  | .shiftRight => sign ">>"
  | .assertWord => word "assert"
  | .walrus => sign ":="
  | .returnWord => word "return"
  | .delWord => word "del"
  | .raiseWord => word "raise"
  | .passWord => word "pass"
  | .breakWord => word "break"
  | .continueWord => word "continue"
  | .ifWord => word "if"
  | .colon => sign ":"
  | .elifWord => word "elif"
  | .elseWord => word "else"
  | .matchWord => word "match"
  | .caseWord => word "case"
  | .asyncWord => word "async"
  | .forWord => word "for"
  | .inWord => word "in"
  | .whileWord => word "while"
  | .tryWord => word "try"
  | .exceptWord => word "except"
  | .exceptStar => sign "except*"
  | .finallyWord => word "finally"
  | .withWord => word "with"
  | .defWord => word "def"
  | .arrow => sign "->"
  | .doubleStar => sign "**"
  | .globalWord => word "global"
  | .nonlocalWord => word "nonlocal"
  | .execWord => word "exec"
  | .typeWord => word "type"
  | .equal => sign "="
  | .classWord => word "class"
  | .openBracket => sign "["
  | .closeBracket => sign "]"
  | .atSign => sign "@"
  | .minus => sign "-"
  | .underscore => word "_"
  | .pipe => sign "|"
  | .openBrace => sign "\x7b"
  | .closeBrace => sign "\x7d"
  | .plus => sign "+"
  | .notWord => word "not"
  | .andWord => word "and"
  | .orWord => word "or"
  | .slash => sign "/"
  | .percent => sign "%"
  | .doubleSlash => sign "//"
  | .ampersand => sign "&"
  | .caret => sign "^"
  | .shiftLeft => sign "<<"
  | .tilde => sign "~"
  | .isWord => word "is"
  | .less => sign "<"
  | .lessEqual => sign "<="
  | .doubleEqual => sign "=="
  | .notEqual => sign "!="
  | .greaterEqual => sign ">="
  | .greater => sign ">"
  | .lessGreater => sign "<>"
  | .lambdaWord => word "lambda"
  | .plusEqual => sign "+="
  | .minusEqual => sign "-="
  | .starEqual => sign "*="
  | .slashEqual => sign "/="
  | .atEqual => sign "@="
  | .doubleSlashEqual => sign "//="
  | .percentEqual => sign "%="
  | .doubleStarEqual => sign "**="
  | .shiftRightEqual => sign ">>="
  | .shiftLeftEqual => sign "<<="
  | .ampersandEqual => sign "&="
  | .caretEqual => sign "^="
  | .pipeEqual => sign "|="
  | .yieldWord => word "yield"
  | .ellipsis => node "ellipsis" (.sign "...")
  | .escape => node "escape_sequence" .escape
  | .backslash => silent "_not_escape_sequence" .backslash
  | .formatText => silent "_format_text" .formatText
  | .conversion => node "type_conversion" .conversion
  | .integer => node "integer" .integer
  | .float => node "float" .float
  | .awaitWord => word "await"
  | .trueWord => node "true" (.keyword "True")
  | .falseWord => node "false" (.keyword "False")
  | .noneWord => node "none" (.keyword "None")
  | .comment => node "comment" .comment
  | .joint => node "line_continuation" .joint
  | .newline => silent "_newline" .newline
  | .indent => silent "_indent" .indent
  | .dedent => silent "_dedent" .dedent
  | .stringStart => node "string_start" .stringStart
  | .stringText => silent "_string_content" .stringText
  | .doubledBrace => node "escape_interpolation" .doubledBrace
  | .stringEnd => node "string_end" .stringEnd

def number (t : Terminal) : Nat := t.ctorIdx

def count : Nat := 108

/-- All terminals in the order of their numbers. -/
def all : List Terminal := (List.range count).map Terminal.ofNat

def ofNumber? (n : Nat) : Option Terminal := if n < count then some (Terminal.ofNat n) else none

end Terminal

/-! ### Rules -/

inductive RuleName where
  | source | statement | simpleStatements | simpleStatement | importStatement | importPrefix
  | relativeImport | futureImportStatement | importFromStatement | importList | aliasedImport
  | wildcardImport | printStatement | chevron | assertStatement | expressionStatement
  | namedExpression | namedExpressionTarget | returnStatement | deleteStatement | expressions
  | raiseStatement | passStatement | breakStatement | continueStatement | compoundStatement
  | ifStatement | elifClause | elseClause | matchStatement | matchBlock | caseClause
  | forStatement | whileStatement | tryStatement | exceptClause | exceptGroupClause
  | finallyClause | withStatement | withClause | withItem | functionDefinition | parameters
  | lambdaParameters | listSplat | dictionarySplat | globalStatement | nonlocalStatement
  | execStatement | typeAliasStatement | classDefinition | typeParameter | parenthesizedListSplat
  | argumentList | decoratedDefinition | decorator | suite | block | expressionList | dottedName
  | casePattern | simplePattern | caseAsPattern | unionPattern | caseListPattern
  | caseTuplePattern | dictPattern | keyValuePattern | keywordPattern | splatPattern
  | classPattern | complexPattern | parameterList | patterns | parameter | pattern | tuplePattern
  | listPattern | defaultParameter | typedDefaultParameter | listSplatPattern
  | dictionarySplatPattern | asPattern | expressionWithinForIn | expression | primaryExpression
  | notOperator | booleanOperator | binaryOperator | unaryOperator | notIn | isNot
  | comparisonOperator | lambda | lambdaWithinForIn | assignment | augmentedAssignment
  | leftHandSide | patternList | rightHandSide | yield | attributeAccess | subscript | slice
  | call | typedParameter | type | splatType | genericType | unionType | constrainedType
  | memberType | keywordArgument | list | set | tuple | dictionary | pair | listComprehension
  | dictionaryComprehension | setComprehension | generatorExpression | comprehensionClauses
  | parenthesizedExpression | collectionElements | forInClause | ifClause | conditionalExpression
  | concatenatedString | string | stringContent | interpolation | replacedExpression
  | formatSpecifier | keywordIdentifier | await | positionalSeparator | keywordSeparator
deriving DecidableEq, Repr

/-- What a part is to the node that holds it. -/
inductive Field where
  | alias | alternative | argument | arguments | body | cause | code | condition | consequence
  | definition | expression | formatSpecifier | function | guard | key | left | member
  | moduleName | name | object | operator | operators | parameters | returnType | right | subject
  | subscript | superclasses | type | typeConversion | typeParameters | value
deriving DecidableEq, Repr

def Field.text : Field → String
  | .alias => "alias"
  | .alternative => "alternative"
  | .argument => "argument"
  | .arguments => "arguments"
  | .body => "body"
  | .cause => "cause"
  | .code => "code"
  | .condition => "condition"
  | .consequence => "consequence"
  | .definition => "definition"
  | .expression => "expression"
  | .formatSpecifier => "format_specifier"
  | .function => "function"
  | .guard => "guard"
  | .key => "key"
  | .left => "left"
  | .member => "attribute"
  | .moduleName => "module_name"
  | .name => "name"
  | .object => "object"
  | .operator => "operator"
  | .operators => "operators"
  | .parameters => "parameters"
  | .returnType => "return_type"
  | .right => "right"
  | .subject => "subject"
  | .subscript => "subscript"
  | .superclasses => "superclasses"
  | .type => "type"
  | .typeConversion => "type_conversion"
  | .typeParameters => "type_parameters"
  | .value => "value"

/-- The kind under which a part appears in place of its own. -/
inductive Guise where
  | block | parenthesized | asPattern | listPattern | tuplePattern | asPatternTarget | lambda
  | listSplat | notIn | isNot | identifier | formatExpression
deriving DecidableEq, Repr

namespace Guise

def kind : Guise → String
  | .block => "block"
  | .parenthesized => "parenthesized_expression"
  | .asPattern => "as_pattern"
  | .listPattern => "list_pattern"
  | .tuplePattern => "tuple_pattern"
  | .asPatternTarget => "as_pattern_target"
  | .lambda => "lambda"
  | .listSplat => "list_splat"
  | .notIn => "not in"
  | .isNot => "is not"
  | .identifier => "identifier"
  | .formatExpression => "format_expression"

def named : Guise → Bool
  | .notIn | .isNot => false
  | _ => true

end Guise

inductive Side where
  | left
  | right
deriving DecidableEq, Repr

inductive Rule where
  | blank
  | terminal (t : Terminal)
  | ref (name : RuleName)
  | seq (first rest : Rule)
  | alt (left right : Rule)
  /-- The body once or more often. -/
  | many1 (body : Rule)
  | field (field : Field) (body : Rule)
  | as (guise : Guise) (body : Rule)
  /-- Binds at a level, and to a side against others of the same level. -/
  | level (level : Int) (side : Option Side) (body : Rule)
  | dynamic (level : Int) (body : Rule)
deriving DecidableEq, Repr

instance : Coe Terminal Rule := ⟨.terminal⟩

namespace Rule

def all : List Rule → Rule
  | [] => .blank
  | [r] => r
  | r :: rest => .seq r (all rest)

def oneOf : List Rule → Rule
  | [] => .blank
  | [r] => r
  | r :: rest => .alt r (oneOf rest)

def opt (r : Rule) : Rule := .alt r .blank
def many (r : Rule) : Rule := .alt (.many1 r) .blank

/-- The rule once or more often, with separators between. -/
def sepBy (separator : Terminal) (r : Rule) : Rule := .seq r (many (.seq separator r))

/-- The rule once or more often, with commas between. -/
def commaSep (r : Rule) : Rule := sepBy .comma r

/-- Some of the rule with commas between, and perhaps one behind. -/
def commaList (r : Rule) : Rule := .seq (commaSep r) (opt Terminal.comma)

def leftAt (level : Int) (parts : List Rule) : Rule := .level level (some .left) (all parts)
def rightAt (level : Int) (parts : List Rule) : Rule := .level level (some .right) (all parts)
def atLevel (level : Int) (parts : List Rule) : Rule := .level level none (all parts)

end Rule

structure Definition where
  name : RuleName
  kind : String
  body : Rule
deriving Repr

structure RuleBook where
  start : RuleName
  definitions : List Definition
  /-- Rules that are replaced by their bodies wherever they are used. -/
  inlined : List RuleName
  /-- Rules that only group others and have no nodes. -/
  groups : List RuleName
deriving Repr

end ModelAtlas.Source.Grammar
