import MatrixScript.KindSet

/-!
How strongly operators bind, and where an operand may start or be left out.
-/

set_option autoImplicit false

namespace MatrixScript.Grammar

/-- Binding strength, weakest first. Every binary operator groups to the left. -/
inductive Precedence where
  | expression
  | assignment
  | logicalOr
  | logicalAnd
  | bitwiseOr
  | bitwiseAnd
  | relational
  | colon
  | additive
  | multiplicative
  | unary
  | signedPower
  | power
  deriving DecidableEq, Repr, Inhabited

namespace Precedence

def strength (precedence : Precedence) : Nat := precedence.ctorIdx

def exceeds (a b : Precedence) : Bool := b.strength < a.strength

def ofBinary? : Kind → Option Precedence
  | .equals => some .assignment
  | .pipePipe => some .logicalOr
  | .ampersandAmpersand => some .logicalAnd
  | .pipe => some .bitwiseOr
  | .ampersand => some .bitwiseAnd
  | .less | .lessOrEquals | .greater | .greaterOrEquals | .equalsEquals | .tildeEquals =>
    some .relational
  | .colon => some .colon
  | .plus | .minus => some .additive
  | .star | .dotStar | .slash | .dotSlash | .backslash | .dotBackslash => some .multiplicative
  | .caret | .dotCaret => some .power
  | _ => none

/-- The floor of the operand of a sign, under the floor of the signed expression. Inside an exponent
the operand ends at the next power. -/
def ofSigned (floor : Precedence) : Precedence :=
  if floor.strength < signedPower.strength then .unary else .power

end Precedence

def expressionFirst : KindSet := .ofList [
  .identifier, .numberLiteral, .stringLiteral, .doubleQuotedStringLiteral, .unquotedStringLiteral,
  .openSquareBracket, .openBrace, .openParenthesis, .at, .colon, .plus, .minus, .tilde]

/-- Tokens before which an operand can be left out, as in `x(:)` and `[~, i]`. -/
def emptyOperandFollow : KindSet := .ofList [
  .comma, .semicolon, .closeParenthesis, .closeSquareBracket, .closeBrace, .eof]

end MatrixScript.Grammar
