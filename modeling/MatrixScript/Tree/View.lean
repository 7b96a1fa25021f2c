import MatrixScript.Tree.Located

/-!
Nodes seen by their parts: which slot of a node holds what.

`Kind.fields` lists the parts of each kind of node by name. Reading a part only answers what is
there and of the right kind, so it is defined on every tree.
-/

set_option autoImplicit false

namespace MatrixScript

namespace Kind

def isStatement : Kind → Bool
  | .expressionStatement | .emptyStatement | .functionDeclaration | .classDeclaration
  | .switchStatement | .whileLoopStatement | .ifStatement | .forLoopStatement
  | .tryCatchStatement | .error => true
  | _ => false

def isExpression : Kind → Bool
  | .assignmentExpression | .binaryOperationExpression | .unaryPrefixOperationExpression
  | .unaryPostfixOperationExpression | .identifierNameExpression | .numberLiteralExpression
  | .stringLiteralExpression | .doubleQuotedStringLiteralExpression
  | .unquotedStringLiteralExpression | .arrayLiteralExpression | .cellArrayLiteralExpression
  | .emptyExpression | .parenthesizedExpression | .cellArrayElementAccessExpression
  | .functionCallExpression | .memberAccessExpression | .indirectMemberAccessExpression
  | .commandExpression | .baseClassInvokationExpression | .namedFunctionHandleExpression
  | .lambdaExpression => true
  | _ => false

def isClassMember : Kind → Bool
  | .propertiesList | .methodsList | .eventsList | .enumerationList => true
  | _ => false

def isMethod : Kind → Bool
  | .methodDefinition | .abstractMethodDeclaration => true
  | _ => false

/-- Whether nodes of a kind have parts: all but plain lists. -/
def hasView (kind : Kind) : Bool := kind.isNode && !kind.isList

/-- The written name with capitals at the start of words only, and no underscores. -/
def camelName (kind : Kind) : String :=
  String.ofList (go true kind.name.toList)
where
  go : Bool → List Char → List Char
    | _, [] => []
    | _, '_' :: rest => go true rest
    | initial, c :: rest => (if initial then c else c.toLower) :: go false rest

end Kind

/-- What a part can be. -/
inductive Category where
  | statement
  | expression
  | classMember
  | method
  | exactly (kind : Kind)
  deriving DecidableEq, Repr

namespace Category

def accepts : Category → Kind → Bool
  | .statement, kind => kind.isStatement
  | .expression, kind => kind.isExpression
  | .classMember, kind => kind.isClassMember
  | .method, kind => kind.isMethod
  | .exactly wanted, kind => kind == wanted

end Category

/-- Where a part of a node is found. -/
inductive Field where
  /-- The node in a slot. -/
  | child (slot : Nat) (category : Category)
  /-- The token in a slot. -/
  | token (slot : Nat)
  /-- Whether a slot holds a token. -/
  | hasToken (slot : Nat)
  /-- The list in a slot, by its elements of a category. -/
  | list (slot : Nat) (category : Category)
  /-- The tokens of certain kinds in the list in a slot; of all kinds if none is named. -/
  | listTokens (slot : Nat) (kinds : List Kind)
  /-- The tokens of a kind in the node itself. -/
  | ownTokens (kind : Kind)
  /-- The significant texts of the tokens in the node itself, joined. -/
  | ownText
  /-- A part of the node of a kind in a slot. -/
  | within (slot : Nat) (kind : Kind) (field : Field)
  deriving DecidableEq, Repr

/-- What is found. -/
inductive Part where
  | child (node : Option Located)
  | token (token : Option Located)
  | flag (present : Bool)
  /-- The list node, its elements, and every token in it. -/
  | list (node : Option Located) (elements tokens : List Located)
  | tokens (tokens : List Located)
  /-- A text, unless trivia ends inside a character. -/
  | text (content : Option (List Char))
  deriving DecidableEq, Repr

namespace Located

def childIn? (place : Located) (slot : Nat) (category : Category) : Option Located :=
  (place.slot? slot).filter fun child => child.isNode && category.accepts child.kind

def tokenIn? (place : Located) (slot : Nat) : Option Located :=
  (place.slot? slot).filter (!·.isNode)

def listTokens (place : Located) (slot : Nat) : List Located :=
  ((place.childIn? slot (.exactly .list)).map Located.tokens).getD []

/-- The significant texts of the tokens in a node, joined. -/
def joinedText? (place : Located) : Option (List Char) := do
  let texts ← (place.tokens.filterMap (·.element.token?)).mapM Token.trimmed?
  return texts.flatten

end Located

namespace Field

/-- The part of a kind of node that is not there. -/
def absent : Field → Part
  | .child .. => .child none
  | .token _ => .token none
  | .hasToken _ => .flag false
  | .list .. => .list none [] []
  | .listTokens .. | .ownTokens _ => .tokens []
  | .ownText => .text (some [])
  | .within _ _ field => field.absent

def read : Field → Located → Part
  | .child slot category, place => .child (place.childIn? slot category)
  | .token slot, place => .token (place.tokenIn? slot)
  | .hasToken slot, place => .flag (place.tokenIn? slot).isSome
  | .list slot category, place =>
    match place.childIn? slot (.exactly .list) with
    | some found => .list (some found) (found.nodes.filter (category.accepts ·.kind)) found.tokens
    | none => .list none [] []
  | .listTokens slot kinds, place =>
    .tokens ((place.listTokens slot).filter fun token => kinds.isEmpty || kinds.contains token.kind)
  | .ownTokens kind, place => .tokens (place.tokens.filter (·.kind == kind))
  | .ownText, place => .text place.joinedText?
  | .within slot kind field, place =>
    match place.childIn? slot (.exactly kind) with
    | some found => field.read found
    | none => field.absent

end Field

def Kind.fields : Kind → List (String × Field)
  | .file => [("statements", .list 0 .statement), ("end_of_file", .token 1)]
  | .expressionStatement => [("expression", .child 0 .expression), ("terminator", .token 1)]
  | .emptyStatement => [("terminator", .token 0)]
  | .functionDeclaration => [
      ("function_keyword", .token 0),
      ("output_description", .child 1 (.exactly .functionOutputDescription)),
      ("name", .child 2 (.exactly .compoundName)),
      ("input_description", .child 3 (.exactly .functionInputDescription)),
      ("body", .list 4 .statement), ("end_keyword", .token 5)]
  | .methodDefinition => [
      ("output_description", .child 1 (.exactly .functionOutputDescription)),
      ("name", .child 2 (.exactly .compoundName)),
      ("input_description", .child 3 (.exactly .functionInputDescription)),
      ("body", .list 4 .statement), ("end_keyword", .token 5)]
  | .abstractMethodDeclaration => [
      ("output_description", .child 0 (.exactly .functionOutputDescription)),
      ("name", .child 1 (.exactly .compoundName)),
      ("input_description", .child 2 (.exactly .functionInputDescription))]
  | .functionOutputDescription => [
      ("outputs", .listTokens 1 [.identifier, .tilde]), ("equals", .token 3)]
  | .functionInputDescription => [("parameters", .listTokens 1 [.identifier, .tilde])]
  | .compoundName => [("text", .ownText), ("segments", .ownTokens .identifier)]
  | .classDeclaration => [
      ("attributes", .child 1 (.exactly .attributeList)), ("name", .token 2),
      ("base_classes", .child 3 (.exactly .baseClassList)), ("members", .list 4 .classMember),
      ("end_keyword", .token 5)]
  | .attributeList => [("attributes", .list 1 (.exactly .attribute))]
  | .attribute => [
      ("is_negated", .hasToken 0), ("name", .token 1),
      ("value", .within 2 .attributeAssignment (.child 1 .expression))]
  | .attributeAssignment => [("value", .child 1 .expression)]
  | .baseClassList => [("base_classes", .list 1 (.exactly .compoundName))]
  | .propertiesList => [
      ("attributes", .child 1 (.exactly .attributeList)), ("properties", .list 2 .statement)]
  | .methodsList => [
      ("attributes", .child 1 (.exactly .attributeList)), ("methods", .list 2 .method)]
  | .eventsList => [
      ("attributes", .child 1 (.exactly .attributeList)), ("events", .listTokens 2 [.identifier])]
  | .enumerationList => [
      ("attributes", .child 1 (.exactly .attributeList)),
      ("items", .list 2 (.exactly .enumerationItem))]
  | .enumerationItem => [
      ("name", .token 0),
      ("arguments", .within 1 .enumerationItemValue (.list 1 .expression))]
  | .switchStatement => [
      ("expression", .child 1 .expression), ("cases", .list 3 (.exactly .switchCase))]
  | .switchCase => [
      ("keyword", .token 0), ("label", .child 1 .expression), ("body", .list 3 .statement)]
  | .whileLoopStatement => [("condition", .child 1 .expression), ("body", .list 3 .statement)]
  | .ifStatement => [
      ("condition", .child 1 .expression), ("body", .list 3 .statement),
      ("elseif_clauses", .list 4 (.exactly .elseifClause)),
      ("else_clause", .child 5 (.exactly .elseClause))]
  | .elseifClause => [("condition", .child 1 .expression), ("body", .list 3 .statement)]
  | .elseClause => [("body", .list 1 .statement)]
  | .forLoopStatement => [
      ("keyword", .token 0), ("loop_expression", .child 1 .expression),
      ("body", .list 3 .statement)]
  | .tryCatchStatement => [
      ("body", .list 2 .statement), ("catch_clause", .child 3 (.exactly .catchClause))]
  | .catchClause => [("identifier", .token 1), ("body", .list 3 .statement)]
  | .assignmentExpression => [("lhs", .child 0 .expression), ("rhs", .child 2 .expression)]
  | .binaryOperationExpression => [
      ("lhs", .child 0 .expression), ("operation", .token 1), ("rhs", .child 2 .expression)]
  | .unaryPrefixOperationExpression => [("operation", .token 0), ("operand", .child 1 .expression)]
  | .unaryPostfixOperationExpression => [("operand", .child 0 .expression), ("operation", .token 1)]
  | .identifierNameExpression => [("name", .token 0)]
  | .numberLiteralExpression => [("number", .token 0)]
  | .stringLiteralExpression | .doubleQuotedStringLiteralExpression
  | .unquotedStringLiteralExpression => [("string", .token 0)]
  | .arrayLiteralExpression | .cellArrayLiteralExpression => [("elements", .list 1 .expression)]
  | .parenthesizedExpression => [("expression", .child 1 .expression)]
  | .cellArrayElementAccessExpression => [
      ("expression", .child 0 .expression), ("indices", .list 2 .expression)]
  | .functionCallExpression => [
      ("function", .child 0 .expression), ("arguments", .list 2 .expression)]
  | .memberAccessExpression => [("expression", .child 0 .expression), ("member", .token 2)]
  | .indirectMemberAccessExpression => [
      ("expression", .child 0 .expression), ("member", .child 3 .expression)]
  | .commandExpression => [
      ("command", .child 0 (.exactly .identifierNameExpression)), ("arguments", .listTokens 1 [])]
  | .baseClassInvokationExpression => [
      ("method", .child 0 .expression), ("base_class", .child 2 .expression)]
  | .namedFunctionHandleExpression => [("name", .child 1 (.exactly .compoundName))]
  | .lambdaExpression => [
      ("input_description", .child 1 (.exactly .functionInputDescription)),
      ("body", .child 2 .expression)]
  | _ => []

def Located.parts (place : Located) : List (String × Part) :=
  place.kind.fields.map fun entry => (entry.1, entry.2.read place)

end MatrixScript
