import MatrixScript.Grammar.Class

/-!
Statements and lists of statements.

Each rule takes the reader of the statements inside as an argument. A rule uses up a word before it
reads a block, so blocks nest no more deeply than there are tokens.
-/

set_option autoImplicit false

namespace MatrixScript.Grammar

/-- Where a list of statements stands. -/
inductive Scope where
  /-- The whole script, in which a word that closes a block is an error. -/
  | script
  /-- A block, which such a word closes. -/
  | block
  deriving DecidableEq, Repr

/-- An expression and the separator on its line. -/
def expressionStatement (inside : Bool) : Read Element := do
  let body ← expression inside
  let terminator ← eatSeparator
  return .node .expressionStatement [some body, terminator.map .leaf] []

/-- Word, condition, separator and statements: four slots. -/
def clause (block : Parse Element) (inside : Bool) : Parse (List (Option Element)) := do
  let keyword ← advance
  let condition ← expression inside
  let separator ← eatSeparator
  let body ← block
  return [some (.leaf keyword), some condition, separator.map .leaf, some body]

def elseClause (block : Parse Element) : Parse (Option Element) := do
  match ← eatWord "else" with
  | some keyword => return some (.ofChildren .elseClause [.leaf keyword, ← block])
  | none => return none

def elseifStep (block : Parse Element) (inside : Bool) (alternatives : List Element) :
    Parse (Option (List Element)) := do
  if (← get).isAtWord "elseif" then
    return some (alternatives ++ [Element.node .elseifClause (← clause block inside) []])
  else return none

def ifStatement (block : Parse Element) (inside : Bool) : Parse Element := do
  let head ← clause block inside
  let alternatives ← repeatParse (elseifStep block inside) []
  let otherwise ← elseClause block
  let closing ← expectWord "end"
  return .node .ifStatement
    (head ++ [some (.list alternatives), otherwise, some (.leaf closing)]) []

def loopStatement (block : Parse Element) (inside : Bool) (kind : Kind) : Parse Element := do
  let head ← clause block inside
  let closing ← expectWord "end"
  return .node kind (head ++ [some (.leaf closing)]) []

/-- `case` with its label, or `otherwise`, and statements. -/
def switchCase (block : Parse Element) (inside : Bool) : Parse Element := do
  let hasLabel := (← get).isAtWord "case"
  let keyword ← advance
  let label ← if hasLabel then some <$> expression inside else pure none
  let separator ← eatSeparator
  let body ← block
  return .node .switchCase
    [some (.leaf keyword), label, separator.map .leaf, some body] []

/-- One more case, or a separator, unless `end` or the end of the text comes next. -/
def switchStep (block : Parse Element) (inside : Bool) (cases : List Element) :
    Parse (Option (List Element)) := do
  let state ← get
  if state.isAtWord "case" || state.isAtWord "otherwise" then
    return some (cases ++ [← switchCase block inside])
  else if state.isAtEnd || state.isAtWord "end" then return none
  else if state.isAtSeparator then return some (cases ++ [.leaf (← advance)])
  else return some (cases ++ [← errorNode .identifier])

def switchStatement (block : Parse Element) (inside : Bool) : Parse Element := do
  let keyword ← advance
  let subject ← expression inside
  let separator ← eatSeparator
  let cases ← repeatParse (switchStep block inside) []
  let closing ← expectWord "end"
  return .node .switchStatement [some (.leaf keyword), some subject, separator.map .leaf,
    some (.list cases), some (.leaf closing)] []

/-- `catch`, a name on the same line, and statements. -/
def catchClause (block : Parse Element) : Parse (Option Element) := do
  match ← eatWord "catch" with
  | none => return none
  | some keyword =>
    let name ← eatIf fun state =>
      !state.previousEndsLine && !state.isAtTerminator && state.isAt .identifier
    let separator ← eatSeparator
    let body ← block
    return some (.node .catchClause
      [some (.leaf keyword), name.map .leaf, separator.map .leaf, some body] [])

def tryStatement (block : Parse Element) : Parse Element := do
  let keyword ← advance
  let separator ← eatSeparator
  let body ← block
  let handler ← catchClause block
  let closing ← expectWord "end"
  return .node .tryCatchStatement [some (.leaf keyword), separator.map .leaf, some body, handler,
    some (.leaf closing)] []

def statement (block : Parse Element) (inside : Bool) : Parse Element := do
  let state ← get
  if state.isAtWord "function" then functionDeclaration block .functionDeclaration
  else if state.isAtWord "classdef" then classDeclaration block
  else if state.isAtWord "switch" then switchStatement block inside
  else if state.isAtWord "while" then loopStatement block inside .whileLoopStatement
  else if state.isAtWord "if" then ifStatement block inside
  else if state.isAtWord "for" || state.isAtWord "parfor" then
    loopStatement block inside .forLoopStatement
  else if state.isAtWord "try" then tryStatement block
  else if state.isAtSeparator then return .ofChildren .emptyStatement [.leaf (← advance)]
  else expressionStatement inside

def statementStep (block : Parse Element) (inside : Bool) (scope : Scope)
    (statements : List Element) : Parse (Option (List Element)) := do
  let state ← get
  if state.isAtEnd then return none
  else if state.isAtTerminator then
    match scope with
    | .block => return none
    | .script => return some (statements ++ [← errorNode .eof])
  else if !state.isAtSeparator && !state.isAtAny expressionFirst then
    return some (statements ++ [← errorNode .identifier])
  else
    return some (statements ++ (← progressingParse .identifier (statement block inside)))

def statementList (block : Parse Element) (inside : Bool) (scope : Scope) : Parse Element := do
  let statements ← repeatParse (statementStep block inside scope) []
  return .list statements

def blockWithin (inside : Bool) : (depth : Nat) → Parse Element
  | 0 => return .list []
  | depth + 1 => statementList (blockWithin inside depth) inside .block

def script (inside : Bool) : Parse Element := do
  let block := blockWithin inside ((← get).rest.length + 1)
  let statements ← statementList block inside .script
  let closing ← expect .eof
  return .ofChildren .file [statements, .leaf closing]

end MatrixScript.Grammar
