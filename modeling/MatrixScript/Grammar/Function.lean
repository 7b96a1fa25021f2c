import MatrixScript.Grammar.State

/-!
Dotted names, lists of names, functions and methods. The reader of the statements inside a function
is an argument of its rule.
-/

set_option autoImplicit false

namespace MatrixScript.Grammar

/-- Whether a dot and a name follow directly on the token used last. -/
def State.isAtDottedName (state : State) : Bool :=
  state.isAt .dot && state.nextKind == .identifier && !state.previousHasTrailing

def dottedStep {α : Type} (extend : α → Token → Token → α) (value : α) : Read (Option α) := do
  if (← get).isAtDottedName then
    let dot ← advance
    let name ← advance
    return some (extend value dot name)
  else return none

def compoundName : Read Element := do
  let first ← expect .identifier
  let tokens ← repeatRead (dottedStep fun tokens dot name => tokens ++ [dot, name]) [first]
  return .ofChildren .compoundName (tokens.map .leaf)

def nameItem (close : Kind) : Read (List Element) := do
  let state ← get
  if state.isAt .identifier || state.isAt .tilde || state.isAt .comma then
    return [.leaf (← advance)]
  else return [← errorNode close]

/-- Names and `~` placeholders up to `close`, with or without commas. -/
def names (close : Kind) : Read Element := listUntil close fun _ => nameItem close

/-- The parameters of a function, in parentheses. -/
def inputDescription : Read Element := do
  let opening ← advance
  let parameters ← names .closeParenthesis
  let closing ← expect .closeParenthesis
  return .ofChildren .functionInputDescription [.leaf opening, parameters, .leaf closing]

/-- The results of a function, one or several in square brackets, and the `=` after them. -/
def outputDescription : Read Element := do
  if (← get).isAt .openSquareBracket then
    let opening ← advance
    let outputs ← names .closeSquareBracket
    let closing ← expect .closeSquareBracket
    let equals ← expect .equals
    return .ofChildren .functionOutputDescription
      [.leaf opening, outputs, .leaf closing, .leaf equals]
  else
    let output ← advance
    let equals ← expect .equals
    return .node .functionOutputDescription
      [none, some (.list [.leaf output]), none, some (.leaf equals)] []

/-- Results, name and parameters of a function: three slots. -/
def signature : Read (List (Option Element)) := do
  let state ← get
  let hasOutput := state.isAt .openSquareBracket ||
    (state.isAt .identifier && state.nextKind == .equals)
  let output ← if hasOutput then some <$> outputDescription else pure none
  let name ← compoundName
  let state ← get
  let hasInput := state.isAt .openParenthesis && !state.previousEndsLine
  let input ← if hasInput then some <$> inputDescription else pure none
  return [output, some name, input]

/-- `function`, a signature, statements, and `end`, which a function outside a class can do
without. -/
def functionDeclaration (block : Parse Element) (kind : Kind) : Parse Element := do
  let keyword ← advance
  let head ← signature
  let body ← block
  let closing ← if kind = .methodDefinition then some <$> expectWord "end" else eatWord "end"
  return .node kind
    ([some (.leaf keyword)] ++ head ++ [some body, closing.map .leaf]) []

def abstractMethodDeclaration : Read Element := do
  return .node .abstractMethodDeclaration (← signature) []

end MatrixScript.Grammar
