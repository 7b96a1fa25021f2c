import MatrixScript.Diagnostic
import MatrixScript.Double

/-!
Tokens with the trivia around them.

A token keeps its full text, and the kinds and byte lengths of the pieces before and after its
significant part. Of the pieces no more is known than that they fit into the text, so cutting the
significant part out is refused when a piece ends inside a character.
-/

set_option autoImplicit false

namespace MatrixScript

/-- Text between the significant parts of tokens. -/
inductive TriviaKind where
  | whitespace
  /-- A line feed, or a carriage return with its line feed. -/
  | newline
  /-- `%` up to the end of the line. -/
  | comment
  /-- From a line `%{` to a line `%}`. -/
  | multilineComment
  /-- `...`, the rest of its line and the line break. -/
  | lineContinuation
  deriving DecidableEq, Repr, Inhabited

namespace TriviaKind

def kind : TriviaKind → Kind
  | .whitespace => .whitespace
  | .newline => .newline
  | .comment => .comment
  | .multilineComment => .multilineComment
  | .lineContinuation => .lineContinuation

def ofKind? : Kind → Option TriviaKind
  | .whitespace => some .whitespace
  | .newline => some .newline
  | .comment => some .comment
  | .multilineComment => some .multilineComment
  | .lineContinuation => some .lineContinuation
  | _ => none

end TriviaKind

/-- A stretch of trivia by kind and length in bytes. -/
structure Piece where
  kind : TriviaKind
  length : Nat
  deriving DecidableEq, Repr, Inhabited

namespace Piece

def total : List Piece → Nat
  | [] => 0
  | piece :: rest => piece.length + total rest

/-- The pieces with their texts and ranges, cut off the front of a text that starts at `offset`. -/
def texts? : List Piece → List Char → Nat → Option (List (TriviaKind × List Char × Range))
  | [], _, _ => some []
  | piece :: rest, text, offset => do
    let (front, back) ← Text.splitBytes? piece.length text
    let later ← texts? rest back (offset + piece.length)
    return (piece.kind, front, Range.ofLength offset piece.length) :: later

end Piece

/-- What a literal means. -/
inductive Value where
  | number (x : Double)
  | imaginary (x : Double)
  | text (content : List Char)
  deriving DecidableEq, Repr

def Value.same : Value → Value → Bool
  | .number x, .number y => x.same y
  | .imaginary x, .imaginary y => x.same y
  | .text a, .text b => a == b
  | _, _ => false

/-- A token. Its diagnostics count from the start of its full text. -/
structure Token where
  kind : Kind
  text : List Char
  leading : List Piece := []
  trailing : List Piece := []
  value : Option Value := none
  isMissing : Bool := false
  diagnostics : List Diagnostic := []
  deriving DecidableEq, Repr

namespace Token

def make? (kind : Kind) (text : List Char) (leading trailing : List Piece) : Option Token :=
  if Piece.total leading + Piece.total trailing ≤ Text.byteSize text then
    some ⟨kind, text, leading, trailing, none, false, []⟩
  else none

/-- An empty token that stands for one the text lacks. -/
def missing (kind : Kind) : Token := ⟨kind, [], [], [], none, true, []⟩

def withValue (token : Token) (value : Value) : Token := { token with value := some value }

def withDiagnostics (token : Token) (diagnostics : List Diagnostic) : Token :=
  { token with diagnostics := token.diagnostics ++ diagnostics }

def width (token : Token) : Nat := Text.byteSize token.text

def leadingWidth (token : Token) : Nat := Piece.total token.leading

def trailingWidth (token : Token) : Nat := Piece.total token.trailing

/-- The range of the significant part, when the full text starts at `offset`. -/
def span (token : Token) (offset : Nat) : Range :=
  ⟨offset + token.leadingWidth, offset + token.width - token.trailingWidth⟩

/-- The significant part; refused where a piece ends inside a character. -/
def trimmed? (token : Token) : Option (List Char) :=
  Text.slice? token.leadingWidth (token.width - token.trailingWidth) token.text

/-- Whether the token is an identifier spelled `word`. -/
def isWord (token : Token) (word : String) : Bool :=
  token.kind == .identifier && token.trimmed? == some word.toList

def endsLine (token : Token) : Bool :=
  token.trailing.getLast?.any (·.kind == .newline)

/-- The pieces before the significant part, with their texts; `offset` is where the token starts. -/
def leadingTexts? (token : Token) (offset : Nat) : Option (List (TriviaKind × List Char × Range)) :=
  Piece.texts? token.leading token.text offset

/-- The pieces after the significant part, with their texts. -/
def trailingTexts? (token : Token) (offset : Nat) :
    Option (List (TriviaKind × List Char × Range)) := do
  let start := token.width - token.trailingWidth
  let (_, back) ← Text.splitBytes? start token.text
  Piece.texts? token.trailing back (offset + start)

def Fits (token : Token) : Prop := token.leadingWidth + token.trailingWidth ≤ token.width

/-- Equality of all that tokens hold, with numbers compared as numbers. -/
def same (a b : Token) : Bool :=
  { a with value := none } == { b with value := none } &&
    match a.value, b.value with
    | none, none => true
    | some x, some y => x.same y
    | _, _ => false

def render (token : Token) : String :=
  if token.isMissing then token.kind.name ++ " (missing)"
  else token.kind.name ++ " " ++ Text.quoted token.text

end Token

end MatrixScript
