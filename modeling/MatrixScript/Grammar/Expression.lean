import MatrixScript.Grammar.Function
import MatrixScript.Grammar.Precedence

/-!
Expressions, read by precedence climbing.

Each rule takes the reader of inner expressions as an argument: `Inner`, by whether white space
separates elements there and by the floor above which operators are taken. Every rule uses up a
token before it reads an inner expression, so `expression` ties the knot with as many levels as
there are tokens.
-/

set_option autoImplicit false

namespace MatrixScript.Grammar

/-- A reader of expressions whose operators bind more strongly than a floor. Between the brackets of
a matrix white space separates elements. -/
abbrev Inner := (insideBrackets : Bool) → (floor : Precedence) → Read Element

def emptyExpression : Element := .ofChildren .emptyExpression []

/-- A name that is missing where an operand should be. -/
def missingOperand : Read Element := do
  return .ofChildren .identifierNameExpression [.leaf (← missing .identifier)]

/-- The operand after an operator; missing when the operator ends its line. -/
def operand (inner : Inner) (inside : Bool) (floor : Precedence) : Read Element := do
  if (← get).previousEndsLine then missingOperand else inner inside floor

/-- The right side of a `:`, which can be left out. -/
def rangeEnd (inner : Inner) (inside : Bool) : Read Element := do
  let state ← get
  if state.previousEndsLine || state.isAtAny emptyOperandFollow then return emptyExpression
  else inner inside .colon

/-- An element of `[...]` or `{...}`, or the `,` or `;` between two. -/
def matrixItem (inner : Inner) (close : Kind) : Read (List Element) := do
  let state ← get
  if state.isAtSeparator then return [.leaf (← advance)]
  else if state.isAtAny expressionFirst then progressing close (inner true .expression)
  else return [← errorNode close]

/-- The elements of `[...]` or `{...}`, separated by commas, semicolons, line breaks or white
space. -/
def matrix (inner : Inner) (kind close : Kind) : Read Element := do
  let opening ← advance
  let elements ← listUntil close fun _ => matrixItem inner close
  let closing ← expect close
  return .ofChildren kind [.leaf opening, elements, .leaf closing]

/-- An argument, with the comma that is missing in front of it, or a comma. -/
def argumentItem (inner : Inner) (close : Kind) (before : List Element) : Read (List Element) := do
  let state ← get
  if state.isAt .comma then return [.leaf (← advance)]
  else if state.isAtAny expressionFirst then
    let comma ←
      if before.getLast?.any (·.kind != .comma) then pure [.leaf (← missing .comma)] else pure []
    return comma ++ (← progressing close (inner false .expression))
  else return [← errorNode close]

/-- Bracket, list of expressions with commas between them, bracket. -/
def arguments (inner : Inner) (close : Kind) : Read (List Element) := do
  let opening ← advance
  let elements ← listUntil close (argumentItem inner close)
  let closing ← expect close
  return [.leaf opening, elements, .leaf closing]

/-- `@` with parameters and a body, or with a name. -/
def functionHandle (inner : Inner) (inside : Bool) : Read Element := do
  let sign ← advance
  if (← get).isAt .openParenthesis then
    let parameters ← inputDescription
    let body ← inner inside .expression
    return .ofChildren .lambdaExpression [.leaf sign, parameters, body]
  else
    let name ← compoundName
    return .ofChildren .namedFunctionHandleExpression [.leaf sign, name]

def single (kind : Kind) : Read Element := do
  return .ofChildren kind [.leaf (← advance)]

def parenthesized (inner : Inner) : Read Element := do
  let opening ← advance
  let body ← inner false .expression
  let closing ← expect .closeParenthesis
  return .ofChildren .parenthesizedExpression [.leaf opening, body, .leaf closing]

/-- A literal, a name, or something in brackets. -/
def term (inner : Inner) (inside : Bool) : Read Element := do
  match (← get).currentKind with
  | .numberLiteral => single .numberLiteralExpression
  | .stringLiteral => single .stringLiteralExpression
  | .doubleQuotedStringLiteral => single .doubleQuotedStringLiteralExpression
  | .unquotedStringLiteral => single .unquotedStringLiteralExpression
  | .identifier => single .identifierNameExpression
  | .openSquareBracket => matrix inner .arrayLiteralExpression .closeSquareBracket
  | .openBrace => matrix inner .cellArrayLiteralExpression .closeBrace
  | .openParenthesis => parenthesized inner
  | .at => functionHandle inner inside
  | _ => missingOperand

def memberAccess (inner : Inner) (subject : Element) : Read Element := do
  let dot ← advance
  if (← get).isAt .openParenthesis then
    let opening ← advance
    let member ← inner false .expression
    let closing ← expect .closeParenthesis
    return .ofChildren .indirectMemberAccessExpression
      [subject, .leaf dot, .leaf opening, member, .leaf closing]
  else
    let name ← expect .identifier
    return .ofChildren .memberAccessExpression [subject, .leaf dot, .leaf name]

/-- `method@Base`, where the base can be dotted. -/
def baseClassInvocation (method : Element) : Read Element := do
  let sign ← advance
  let first : Element := .ofChildren .identifierNameExpression [.leaf (← expect .identifier)]
  let base ← repeatRead (dottedStep fun base dot name =>
    .ofChildren .memberAccessExpression [base, .leaf dot, .leaf name]) first
  return .ofChildren .baseClassInvokationExpression [method, .leaf sign, base]

def commandStep (words : List Token) : Read (Option (List Token)) := do
  match ← eat .unquotedStringLiteral with
  | some word => return some (words ++ [word])
  | none => return none

def command (name : Element) : Read Element := do
  let words ← repeatRead commandStep []
  return .ofChildren .commandExpression [name, .list (words.map .leaf)]

/-- One suffix of an expression: a call, an index, a member, a transpose or a base class. -/
def suffixStep (inner : Inner) (inside : Bool) (subject : Element) : Read (Option Element) := do
  let state ← get
  if state.previousEndsLine then return none
  let separated := inside && state.previousHasTrailing
  match state.currentKind with
  | .openParenthesis =>
    if separated then return none
    return some (.ofChildren .functionCallExpression
      (subject :: (← arguments inner .closeParenthesis)))
  | .openBrace =>
    if separated then return none
    return some (.ofChildren .cellArrayElementAccessExpression
      (subject :: (← arguments inner .closeBrace)))
  | .dot => some <$> memberAccess inner subject
  | .apostrophe | .dotApostrophe =>
    return some (.ofChildren .unaryPostfixOperationExpression [subject, .leaf (← advance)])
  | .at =>
    let named := subject.kind == .identifierNameExpression ||
      subject.kind == .memberAccessExpression
    if named && !state.previousHasTrailing then some <$> baseClassInvocation subject
    else return none
  | _ => return none

def suffixed (inner : Inner) (inside : Bool) : Read Element := do
  let subject ← term inner inside
  if subject.kind == .identifierNameExpression && (← get).isAt .unquotedStringLiteral then
    command subject
  else repeatRead (suffixStep inner inside) subject

/-- A sign and its operand, which can be left out after `~`. -/
def prefixed (inner : Inner) (inside : Bool) (floor : Precedence) : Read Element := do
  let sign ← advance
  let leftOut := sign.kind == .tilde && (← get).isAtAny emptyOperandFollow
  let body ← if leftOut then pure emptyExpression else operand inner inside (.ofSigned floor)
  return .ofChildren .unaryPrefixOperationExpression [.leaf sign, body]

/-- An expression up to its first binary operator, signs included. A `:` in front has no left
side. -/
def signed (inner : Inner) (inside : Bool) (floor : Precedence) : Read Element := do
  let state ← get
  match state.currentKind with
  | .plus | .minus | .tilde => prefixed inner inside floor
  | .colon =>
    let colon ← advance
    let stop ← rangeEnd inner inside
    return .ofChildren .binaryOperationExpression [emptyExpression, .leaf colon, stop]
  | _ => suffixed inner inside

/-- Between brackets, `1 -2` is two elements, while `1 - 2` and `1-2` are one. -/
def State.startsSignedElement (state : State) : Bool :=
  (state.isAt .plus || state.isAt .minus) && state.previousHasTrailing &&
    state.current.token.trailing.isEmpty

/-- One binary operator above the floor, with its right side. -/
def binaryStep (inner : Inner) (inside : Bool) (floor : Precedence) (left : Element) :
    Read (Option Element) := do
  let state ← get
  if state.previousEndsLine then return none
  match Precedence.ofBinary? state.currentKind with
  | none => return none
  | some precedence =>
    if !precedence.exceeds floor || (inside && state.startsSignedElement) then return none
    let operator ← advance
    let right ← if operator.kind == .colon then rangeEnd inner inside
      else operand inner inside precedence
    let kind := if operator.kind == .equals then Kind.assignmentExpression
      else .binaryOperationExpression
    return some (.ofChildren kind [left, .leaf operator, right])

/-- An expression whose operators bind more strongly than `floor`. -/
def climb (inner : Inner) : Inner := fun inside floor => do
  let left ← signed inner inside floor
  repeatRead (binaryStep inner inside floor) left

/-- Expressions nested less deeply than `depth`. -/
def expressionWithin : (depth : Nat) → Inner
  | 0 => fun _ _ => missingOperand
  | depth + 1 => climb (expressionWithin depth)

/-- A whole expression. It nests no more deeply than there are tokens. -/
def expression (inside : Bool) : Read Element := do
  expressionWithin ((← get).rest.length + 1) inside .expression

end MatrixScript.Grammar
