import MatrixScript.Element
import MatrixScript.KindSet
import MatrixScript.Lexer

/-!
The tokens ahead of a parser, and the moves on them.

`Read` is for syntax that always yields an element, if need be one with missing tokens; `Parse` is
for syntax that can fail. The token at the end of the text is never used up.
-/

set_option autoImplicit false

namespace MatrixScript.Grammar

/-- What a parser has before it. -/
structure State where
  /-- The token used last. -/
  previous : Option Token := none
  /-- The tokens ahead, without the one at the end of the text. -/
  rest : List PlacedToken
  eof : PlacedToken
  /-- The problems found so far. -/
  diagnostics : List Diagnostic := []
  deriving DecidableEq, Repr

abbrev Read := StateM State

abbrev Parse := StateT State (Except Failure)

instance : MonadLift Read Parse where
  monadLift read := fun state => .ok (read state)

namespace State

def ofStream (stream : TokenStream) : State := { rest := stream.tokens, eof := stream.eof }

def current (state : State) : PlacedToken := state.rest.headD state.eof

def currentKind (state : State) : Kind := state.current.kind

/-- The kind of the token after the current one. -/
def nextKind (state : State) : Kind := ((state.rest.drop 1).headD state.eof).kind

def isAt (state : State) (kind : Kind) : Bool := state.currentKind == kind

def isAtEnd (state : State) : Bool := state.isAt .eof

def isAtAny (state : State) (kinds : KindSet) : Bool := kinds.contains state.currentKind

def isAtSeparator (state : State) : Bool := state.isAt .semicolon || state.isAt .comma

def isAtWord (state : State) (word : String) : Bool := state.current.token.isWord word

/-- Whether the current token is a word that closes a statement list. -/
def isAtTerminator (state : State) : Bool := Word.terminators.any state.isAtWord

/-- Whether the current token starts a new line. -/
def previousEndsLine (state : State) : Bool := state.previous.any Token.endsLine

/-- Whether trivia stands between the token used last and the current one. -/
def previousHasTrailing (state : State) : Bool := state.previous.any (!·.trailing.isEmpty)

end State

def advance : Read Token := fun state =>
  match state.rest with
  | [] => (state.eof.token, state)
  | placed :: rest => (placed.token, { state with previous := some placed.token, rest := rest })

/-- Uses up the current token if it satisfies a test. -/
def eatIf (test : State → Bool) : Read (Option Token) := do
  if test (← get) then return some (← advance) else return none

def eat (kind : Kind) : Read (Option Token) := eatIf (·.isAt kind)

def eatWord (word : String) : Read (Option Token) := eatIf (·.isAtWord word)

def eatSeparator : Read (Option Token) :=
  eatIf fun state => !state.previousEndsLine && state.isAtSeparator

def report (diagnostic : Diagnostic) : Read Unit :=
  modify fun state => { state with diagnostics := state.diagnostics ++ [diagnostic] }

/-- An empty token in front of the current one, and the report that it is missing. -/
def missing (kind : Kind) : Read Token := do
  let start := (← get).current.range.start
  report ⟨.missingToken kind, Range.empty start⟩
  return (Token.missing kind).withDiagnostics [⟨.missingToken kind, Range.empty 0⟩]

def expect (kind : Kind) : Read Token := do
  match ← eat kind with
  | some token => return token
  | none => missing kind

def expectWord (word : String) : Read Token := do
  match ← eatWord word with
  | some token => return token
  | none => missing .identifier

/-- Wraps the current token, for which there is no rule, in an error node. -/
def errorNode (expected : Kind) : Read Element := do
  let current := (← get).current
  let problem := Problem.unexpectedToken expected current.kind
  report ⟨problem, current.range⟩
  let token ← advance
  return .node .error [some (.leaf token)] [⟨problem, token.span 0⟩]

/-- Repeats a step that turns a result into a further one, until it gives none, at most `count`
times. -/
def iterate {m : Type → Type} [Monad m] {α : Type} (step : α → m (Option α)) : Nat → α → m α
  | 0, value => pure value
  | count + 1, value => do
    match ← step value with
    | some further => iterate step count further
    | none => pure value

/-- Repeats a step that uses up a token each time: as often as there are tokens is enough. -/
def repeatRead {α : Type} (step : α → Read (Option α)) (value : α) : Read α := do
  iterate step (← get).rest.length value

def repeatParse {α : Type} (step : α → Parse (Option α)) (value : α) : Parse α := do
  iterate step (← get).rest.length value

/-- Reads an element. Were it to use up no token, an error node would take the current one. -/
def progressing (expected : Kind) (read : Read Element) : Read (List Element) := do
  let before := (← get).rest.length
  let element ← read
  if (← get).rest.length = before then return [element, ← errorNode expected]
  else return [element]

def progressingParse (expected : Kind) (parse : Parse Element) : Parse (List Element) := do
  let before := (← get).rest.length
  let element ← parse
  if (← get).rest.length = before then return [element, ← errorNode expected]
  else return [element]

/-- One more item of a list, unless its closing bracket or the end of the text comes next. -/
def listStep (close : Kind) (item : List Element → Read (List Element)) (elements : List Element) :
    Read (Option (List Element)) := do
  let state ← get
  if state.isAt close || state.isAtEnd then return none
  else return some (elements ++ (← item elements))

/-- A list of elements up to a closing bracket, which is left. Each item may look at the elements
before it. -/
def listUntil (close : Kind) (item : List Element → Read (List Element)) : Read Element := do
  let elements ← repeatRead (listStep close item) []
  return .list elements

end MatrixScript.Grammar
