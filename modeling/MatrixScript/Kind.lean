/-!
The kinds of trivia, tokens and nodes of a matrix script.

One enumeration names every element of a tree. Its order matters: trivia and token kinds come first
and `Kind.file` opens the node kinds, so `Kind.number` tells tokens from nodes.
-/

set_option autoImplicit false

namespace MatrixScript

/-- What an element of a syntax tree is. -/
inductive Kind where
  | whitespace
  | newline
  | comment
  | multilineComment
  | lineContinuation
  | eof
  | badToken
  | identifier
  | numberLiteral
  | stringLiteral
  | doubleQuotedStringLiteral
  | unquotedStringLiteral
  | equals
  | pipePipe
  | ampersandAmpersand
  | pipe
  | ampersand
  | less
  | lessOrEquals
  | greater
  | greaterOrEquals
  | equalsEquals
  | tildeEquals
  | colon
  | plus
  | minus
  | star
  | dotStar
  | slash
  | dotSlash
  | backslash
  | dotBackslash
  | caret
  | dotCaret
  | tilde
  | apostrophe
  | dotApostrophe
  | at
  | dot
  | comma
  | semicolon
  | openParenthesis
  | closeParenthesis
  | openSquareBracket
  | closeSquareBracket
  | openBrace
  | closeBrace
  | file
  | list
  | error
  | expressionStatement
  | emptyStatement
  | functionDeclaration
  | functionOutputDescription
  | functionInputDescription
  | classDeclaration
  | attributeList
  | attribute
  | attributeAssignment
  | baseClassList
  | propertiesList
  | methodsList
  | eventsList
  | enumerationList
  | enumerationItem
  | enumerationItemValue
  | methodDefinition
  | abstractMethodDeclaration
  | switchStatement
  | switchCase
  | whileLoopStatement
  | ifStatement
  | elseifClause
  | elseClause
  | forLoopStatement
  | tryCatchStatement
  | catchClause
  | assignmentExpression
  | binaryOperationExpression
  | unaryPrefixOperationExpression
  | unaryPostfixOperationExpression
  | identifierNameExpression
  | numberLiteralExpression
  | stringLiteralExpression
  | doubleQuotedStringLiteralExpression
  | unquotedStringLiteralExpression
  | arrayLiteralExpression
  | cellArrayLiteralExpression
  | emptyExpression
  | parenthesizedExpression
  | cellArrayElementAccessExpression
  | functionCallExpression
  | memberAccessExpression
  | indirectMemberAccessExpression
  | commandExpression
  | baseClassInvokationExpression
  | namedFunctionHandleExpression
  | lambdaExpression
  | compoundName
  deriving DecidableEq, Repr, Inhabited

namespace Kind

def all : List Kind := [
  .whitespace, .newline, .comment, .multilineComment, .lineContinuation,
  .eof, .badToken, .identifier, .numberLiteral, .stringLiteral, .doubleQuotedStringLiteral,
  .unquotedStringLiteral,
  .equals, .pipePipe, .ampersandAmpersand, .pipe, .ampersand, .less, .lessOrEquals, .greater,
  .greaterOrEquals, .equalsEquals, .tildeEquals, .colon, .plus, .minus, .star, .dotStar, .slash,
  .dotSlash, .backslash, .dotBackslash, .caret, .dotCaret, .tilde, .apostrophe, .dotApostrophe,
  .at, .dot, .comma, .semicolon, .openParenthesis, .closeParenthesis, .openSquareBracket,
  .closeSquareBracket, .openBrace, .closeBrace,
  .file, .list, .error,
  .expressionStatement, .emptyStatement, .functionDeclaration, .functionOutputDescription,
  .functionInputDescription, .classDeclaration, .attributeList, .attribute, .attributeAssignment,
  .baseClassList, .propertiesList, .methodsList, .eventsList, .enumerationList, .enumerationItem,
  .enumerationItemValue, .methodDefinition, .abstractMethodDeclaration, .switchStatement,
  .switchCase, .whileLoopStatement, .ifStatement, .elseifClause, .elseClause, .forLoopStatement,
  .tryCatchStatement, .catchClause,
  .assignmentExpression, .binaryOperationExpression, .unaryPrefixOperationExpression,
  .unaryPostfixOperationExpression, .identifierNameExpression, .numberLiteralExpression,
  .stringLiteralExpression, .doubleQuotedStringLiteralExpression,
  .unquotedStringLiteralExpression, .arrayLiteralExpression, .cellArrayLiteralExpression,
  .emptyExpression, .parenthesizedExpression, .cellArrayElementAccessExpression,
  .functionCallExpression, .memberAccessExpression, .indirectMemberAccessExpression,
  .commandExpression, .baseClassInvokationExpression, .namedFunctionHandleExpression,
  .lambdaExpression, .compoundName]

def name : Kind → String
  | .whitespace => "WHITESPACE"
  | .newline => "NEWLINE"
  | .comment => "COMMENT"
  | .multilineComment => "MULTILINE_COMMENT"
  | .lineContinuation => "LINE_CONTINUATION"
  | .eof => "EOF"
  | .badToken => "BAD_TOKEN"
  | .identifier => "IDENTIFIER"
  | .numberLiteral => "NUMBER_LITERAL"
  | .stringLiteral => "STRING_LITERAL"
  | .doubleQuotedStringLiteral => "DOUBLE_QUOTED_STRING_LITERAL"
  | .unquotedStringLiteral => "UNQUOTED_STRING_LITERAL"
  | .equals => "EQUALS"
  | .pipePipe => "PIPE_PIPE"
  | .ampersandAmpersand => "AMPERSAND_AMPERSAND"
  | .pipe => "PIPE"
  | .ampersand => "AMPERSAND"
  | .less => "LESS"
  | .lessOrEquals => "LESS_OR_EQUALS"
  | .greater => "GREATER"
  | .greaterOrEquals => "GREATER_OR_EQUALS"
  | .equalsEquals => "EQUALS_EQUALS"
  | .tildeEquals => "TILDE_EQUALS"
  | .colon => "COLON"
  | .plus => "PLUS"
  | .minus => "MINUS"
  | .star => "STAR"
  | .dotStar => "DOT_STAR"
  | .slash => "SLASH"
  | .dotSlash => "DOT_SLASH"
  | .backslash => "BACKSLASH"
  | .dotBackslash => "DOT_BACKSLASH"
  | .caret => "CARET"
  | .dotCaret => "DOT_CARET"
  | .tilde => "TILDE"
  | .apostrophe => "APOSTROPHE"
  | .dotApostrophe => "DOT_APOSTROPHE"
  | .at => "AT"
  | .dot => "DOT"
  | .comma => "COMMA"
  | .semicolon => "SEMICOLON"
  | .openParenthesis => "OPEN_PARENTHESIS"
  | .closeParenthesis => "CLOSE_PARENTHESIS"
  | .openSquareBracket => "OPEN_SQUARE_BRACKET"
  | .closeSquareBracket => "CLOSE_SQUARE_BRACKET"
  | .openBrace => "OPEN_BRACE"
  | .closeBrace => "CLOSE_BRACE"
  | .file => "FILE"
  | .list => "LIST"
  | .error => "ERROR"
  | .expressionStatement => "EXPRESSION_STATEMENT"
  | .emptyStatement => "EMPTY_STATEMENT"
  | .functionDeclaration => "FUNCTION_DECLARATION"
  | .functionOutputDescription => "FUNCTION_OUTPUT_DESCRIPTION"
  | .functionInputDescription => "FUNCTION_INPUT_DESCRIPTION"
  | .classDeclaration => "CLASS_DECLARATION"
  | .attributeList => "ATTRIBUTE_LIST"
  | .attribute => "ATTRIBUTE"
  | .attributeAssignment => "ATTRIBUTE_ASSIGNMENT"
  | .baseClassList => "BASE_CLASS_LIST"
  | .propertiesList => "PROPERTIES_LIST"
  | .methodsList => "METHODS_LIST"
  | .eventsList => "EVENTS_LIST"
  | .enumerationList => "ENUMERATION_LIST"
  | .enumerationItem => "ENUMERATION_ITEM"
  | .enumerationItemValue => "ENUMERATION_ITEM_VALUE"
  | .methodDefinition => "METHOD_DEFINITION"
  | .abstractMethodDeclaration => "ABSTRACT_METHOD_DECLARATION"
  | .switchStatement => "SWITCH_STATEMENT"
  | .switchCase => "SWITCH_CASE"
  | .whileLoopStatement => "WHILE_LOOP_STATEMENT"
  | .ifStatement => "IF_STATEMENT"
  | .elseifClause => "ELSEIF_CLAUSE"
  | .elseClause => "ELSE_CLAUSE"
  | .forLoopStatement => "FOR_LOOP_STATEMENT"
  | .tryCatchStatement => "TRY_CATCH_STATEMENT"
  | .catchClause => "CATCH_CLAUSE"
  | .assignmentExpression => "ASSIGNMENT_EXPRESSION"
  | .binaryOperationExpression => "BINARY_OPERATION_EXPRESSION"
  | .unaryPrefixOperationExpression => "UNARY_PREFIX_OPERATION_EXPRESSION"
  | .unaryPostfixOperationExpression => "UNARY_POSTFIX_OPERATION_EXPRESSION"
  | .identifierNameExpression => "IDENTIFIER_NAME_EXPRESSION"
  | .numberLiteralExpression => "NUMBER_LITERAL_EXPRESSION"
  | .stringLiteralExpression => "STRING_LITERAL_EXPRESSION"
  | .doubleQuotedStringLiteralExpression => "DOUBLE_QUOTED_STRING_LITERAL_EXPRESSION"
  | .unquotedStringLiteralExpression => "UNQUOTED_STRING_LITERAL_EXPRESSION"
  | .arrayLiteralExpression => "ARRAY_LITERAL_EXPRESSION"
  | .cellArrayLiteralExpression => "CELL_ARRAY_LITERAL_EXPRESSION"
  | .emptyExpression => "EMPTY_EXPRESSION"
  | .parenthesizedExpression => "PARENTHESIZED_EXPRESSION"
  | .cellArrayElementAccessExpression => "CELL_ARRAY_ELEMENT_ACCESS_EXPRESSION"
  | .functionCallExpression => "FUNCTION_CALL_EXPRESSION"
  | .memberAccessExpression => "MEMBER_ACCESS_EXPRESSION"
  | .indirectMemberAccessExpression => "INDIRECT_MEMBER_ACCESS_EXPRESSION"
  | .commandExpression => "COMMAND_EXPRESSION"
  | .baseClassInvokationExpression => "BASE_CLASS_INVOKATION_EXPRESSION"
  | .namedFunctionHandleExpression => "NAMED_FUNCTION_HANDLE_EXPRESSION"
  | .lambdaExpression => "LAMBDA_EXPRESSION"
  | .compoundName => "COMPOUND_NAME"

def ofName? (text : String) : Option Kind :=
  all.find? (·.name == text)

/-- The place of a kind in the order, from zero. -/
def number (kind : Kind) : Nat := kind.ctorIdx

theorem number_injective {a b : Kind} (h : a.number = b.number) : a = b := by
  have := congrArg Kind.ofNat h
  simpa [number, Kind.ofNat_ctorIdx] using this

def isTrivia : Kind → Bool
  | .whitespace | .newline | .comment | .multilineComment | .lineContinuation => true
  | _ => false

def isToken (kind : Kind) : Bool := kind.number < Kind.file.number

def isNode (kind : Kind) : Bool := !kind.isToken

def isList (kind : Kind) : Bool := kind == .list

/-- The one spelling of an operator, separator or bracket. -/
def fixedText? : Kind → Option (List Char)
  | .equals => some ['=']
  | .pipePipe => some ['|', '|']
  | .ampersandAmpersand => some ['&', '&']
  | .pipe => some ['|']
  | .ampersand => some ['&']
  | .less => some ['<']
  | .lessOrEquals => some ['<', '=']
  | .greater => some ['>']
  | .greaterOrEquals => some ['>', '=']
  | .equalsEquals => some ['=', '=']
  | .tildeEquals => some ['~', '=']
  | .colon => some [':']
  | .plus => some ['+']
  | .minus => some ['-']
  | .star => some ['*']
  | .dotStar => some ['.', '*']
  | .slash => some ['/']
  | .dotSlash => some ['.', '/']
  | .backslash => some ['\\']
  | .dotBackslash => some ['.', '\\']
  | .caret => some ['^']
  | .dotCaret => some ['.', '^']
  | .tilde => some ['~']
  | .apostrophe => some ['\'']
  | .dotApostrophe => some ['.', '\'']
  | .at => some ['@']
  | .dot => some ['.']
  | .comma => some [',']
  | .semicolon => some [';']
  | .openParenthesis => some ['(']
  | .closeParenthesis => some [')']
  | .openSquareBracket => some ['[']
  | .closeSquareBracket => some [']']
  | .openBrace => some ['{']
  | .closeBrace => some ['}']
  | _ => none

def fixed : List Kind := all.filter (·.fixedText?.isSome)

def ofFixedText? (text : List Char) : Option Kind := fixed.find? (·.fixedText? == some text)

theorem ofFixedText?_eq_some_iff {kind : Kind} {text : List Char} :
    ofFixedText? text = some kind ↔ kind.fixedText? = some text := by
  constructor
  · intro found
    simpa using List.find?_some found
  · intro spelled
    cases kind <;> simp only [fixedText?, reduceCtorEq, Option.some.injEq] at spelled
    all_goals subst spelled; decide

def isOpening : Kind → Bool
  | .openParenthesis | .openSquareBracket | .openBrace => true
  | _ => false

def isClosing : Kind → Bool
  | .closeParenthesis | .closeSquareBracket | .closeBrace => true
  | _ => false

def closing? : Kind → Option Kind
  | .openParenthesis => some .closeParenthesis
  | .openSquareBracket => some .closeSquareBracket
  | .openBrace => some .closeBrace
  | _ => none

end Kind

namespace Word

/-- Words that cannot name anything. They are read as identifiers, and only their text tells them
apart. -/
def reserved : List String := [
  "break", "case", "catch", "classdef", "continue", "else", "elseif", "end", "for", "function",
  "if", "otherwise", "parfor", "return", "spmd", "switch", "try", "while"]

/-- Words that close the statement list in which they stand. -/
def terminators : List String := ["case", "catch", "else", "elseif", "end", "otherwise"]

def isReserved (word : List Char) : Bool := reserved.any (·.toList == word)

end Word

end MatrixScript
