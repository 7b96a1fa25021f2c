import MatrixScript.Kind
import MatrixScript.Text.Characters
import MatrixScript.Text.Range

/-!
What can be wrong with a script, where, and how it is told.

A `Diagnostic` is a problem with its range. The same type serves for problems told about the whole
text and for those kept on an element of the tree; the latter count from the element's start and
`Diagnostic.shift` moves them. A `Failure` is a diagnostic after which there is no tree.
-/

set_option autoImplicit false

namespace MatrixScript

/-- What is wrong. -/
inductive Problem where
  | unexpectedEndOfFile
  | unexpectedCharacterInNumber (c : Char)
  | unterminatedStringLiteral
  | unknownSymbol (c : Char)
  | unexpectedToken (expected actual : Kind)
  | missingToken (kind : Kind)
  | unmatchedClosingBracket (kind : Kind)
  | unmatchedOpeningBracket (kind : Kind)
  | unexpectedClassMember (text : List Char)
  deriving DecidableEq, Repr, Inhabited

def Problem.message : Problem → String
  | .unexpectedEndOfFile => "unexpected end of file"
  | .unexpectedCharacterInNumber c =>
    "unexpected character " ++ Text.quotedChar c ++ " while parsing number"
  | .unterminatedStringLiteral => "unterminated string literal"
  | .unknownSymbol c => "unknown symbol " ++ Text.quotedChar c
  | .unexpectedToken expected actual =>
    "unexpected token " ++ actual.name ++ ", expected " ++ expected.name
  | .missingToken kind => "missing token " ++ kind.name
  | .unmatchedClosingBracket kind => "unmatched closing bracket " ++ kind.name
  | .unmatchedOpeningBracket kind => "unmatched opening bracket " ++ kind.name ++ " at end of file"
  | .unexpectedClassMember text => "unexpected " ++ Text.quoted text ++ " in class body"

/-- A problem and the bytes it concerns. -/
structure Diagnostic where
  problem : Problem
  range : Range
  deriving DecidableEq, Repr, Inhabited

namespace Diagnostic

def start (diagnostic : Diagnostic) : Nat := diagnostic.range.start

def message (diagnostic : Diagnostic) : String := diagnostic.problem.message

def render (diagnostic : Diagnostic) : String :=
  diagnostic.range.render ++ ": " ++ diagnostic.message

/-- The same problem, further on by `offset` bytes. -/
def shift (diagnostic : Diagnostic) (offset : Nat) : Diagnostic :=
  ⟨diagnostic.problem, diagnostic.range.shift offset⟩

/-- The largest offset that an element of a tree can have. -/
def offsetLimit : Nat := 4294967295

/-- `shift`, refused when the range would end beyond the largest offset. -/
def shift? (diagnostic : Diagnostic) (offset : Nat) : Option Diagnostic :=
  if diagnostic.range.stop + offset ≤ offsetLimit then some (diagnostic.shift offset) else none

/-- The problem of a text, counted from an offset in it; refused when it starts before. -/
def since? (diagnostic : Diagnostic) (offset : Nat) : Option Diagnostic :=
  if offset ≤ diagnostic.range.start ∧ offset ≤ diagnostic.range.stop then
    some ⟨diagnostic.problem, diagnostic.range.start - offset, diagnostic.range.stop - offset⟩
  else none

theorem since?_shift (diagnostic : Diagnostic) (offset : Nat) :
    (diagnostic.shift offset).since? offset = some diagnostic := by
  simp [since?, shift, Range.shift]

/-- Puts a diagnostic in front of the first one that does not start before it. -/
def insertByStart (diagnostic : Diagnostic) : List Diagnostic → List Diagnostic
  | [] => [diagnostic]
  | first :: rest =>
    if diagnostic.start ≤ first.start then diagnostic :: first :: rest
    else first :: insertByStart diagnostic rest

/-- Diagnostics in the order of their starts; those with one start keep their order. -/
def sortByStart : List Diagnostic → List Diagnostic
  | [] => []
  | diagnostic :: rest => insertByStart diagnostic (sortByStart rest)

end Diagnostic

/-- A problem that leaves no tree. -/
structure Failure where
  diagnostic : Diagnostic
  deriving DecidableEq, Repr, Inhabited

def Failure.message (failure : Failure) : String :=
  "parse failed at " ++ failure.diagnostic.render

end MatrixScript
